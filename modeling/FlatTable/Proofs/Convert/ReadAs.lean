import FlatTable.Proofs.Convert.Made
import FlatTable.Proofs.Convert.Shown

/-! What a field of a finished buffer reads as, by the draft that it holds. -/
namespace FlatTable
open Layout Build Builder

/-- What a field of this type reads as that holds the draft. -/
inductive Draft.ReadAs (s : Schema) (b : Builder) (h : History) (type : FieldType) :
    Draft → FieldValue → Prop where
  | scalar (v : Value) : ReadAs s b h type (.scalar v) (.scalar v)
  | struct {values : List Value} {view : StructView} (declared : type = .struct view.id)
      (members : ∀ j, view.member? s j = values[j]?) : ReadAs s b h type (.struct values) (.struct view)
  | string (text : String) : ReadAs s b h type (.string text) (.string text)
  | scalars {t : ScalarType} {items : List Value} {v : FieldVector} (length : v.length = items.length)
      (elements : v.items = items.map .scalar) : ReadAs s b h type (.scalars t items) (.vector v)
  | strings {texts : List String} {v : FieldVector} (length : v.length = texts.length)
      (elements : v.items = texts.map .string) : ReadAs s b h type (.strings texts) (.vector v)
  | table {t : TableDraft} {rev : Nat} (made : t.Made h rev) :
      ReadAs s b h type (.table t) (.table ⟨b.finished.data, b.positionOf rev⟩ t.id)
  | tables {items : List TableDraft} {refs : List (Ref .table)} {v : FieldVector} {id : Nat}
      (declared : ∀ t ∈ items, t.id = id) (made : refs.Forall₂ (fun r t => t.Made h r.rev) items)
      (length : v.length = refs.length)
      (elements : v.items = refs.map fun r => .table ⟨b.finished.data, b.positionOf r.rev⟩ id) :
      ReadAs s b h type (.tables items) (.vector v)

namespace Builder
variable {s : Schema} {h : History} {b : Builder}

/-- A field that was set reads as the draft that it holds. -/
theorem readAs_of_made (valid : s.Valid) (built : b.Built s h) (complete : b.Complete h) {d : Draft}
    {x : Setting} {rev i : Nat} {a : TableArgs} {f : FieldDef} (made : d.Made h x)
    (hasType : d.HasType s f.type) (known : ⟨rev, .table a⟩ ∈ h) (field : s.field? a.table i = some f)
    (live : f.deprecated = false) (set : a.settings[i]? = some (some x)) :
    d.ReadAs s b h f.type (TableView.field ⟨b.finished.data, b.positionOf rev⟩ s a.table i) := by
  have schema : a.schema = s := (built.fits _ known a rfl).schema
  have content {rev : Nat} {c : Content} (object : ⟨rev, c⟩ ∈ h) : h.content? rev = some c :=
    built.grounded.content?_eq_some_iff.mpr object
  have reads := built.readsBack field live valid known
  cases made with
  | scalar =>
    rw [complete.field_of_scalar built known field live set]
    exact .scalar _
  | struct =>
    obtain ⟨view, read, members⟩ := reads.exists_view set
    obtain ⟨f', _, _, _, found, _, type, _, _, rfl⟩ := TableView.exists_struct read
    obtain rfl : f = f' := Option.some.inj (field.symm.trans found)
    rw [read]
    exact .struct type (schema ▸ members)
  | string object _ =>
    rw [reads.of_object set (content object)]
    exact .string _
  | scalars object _ =>
    obtain ⟨v, read, length, items⟩ := reads.of_object set (content object)
    rw [read]
    exact .scalars length items
  | @strings _ refs texts object _ elements =>
    obtain ⟨v, read, length, items⟩ := reads.of_object set (content object)
    rw [read]
    refine .strings (length.trans elements.length_eq) ?_
    apply List.map_injective_iff.mpr (Option.some_injective _)
    rw [items, List.map_map]
    exact map_eq_map_of_forall₂ elements fun r text known => by
      rw [History.text?, content known, Option.map_some, Function.comp_apply]
  | @table _ t _ table =>
    obtain ⟨a', object, _⟩ := table.known
    obtain ⟨id, declared, read⟩ := reads.of_object set (content object)
    obtain rfl : t.id = id := FieldType.table.inj (hasType.symm.trans declared)
    rw [read]
    exact .table table
  | @tables _ refs items object _ same elements =>
    obtain ⟨v, id, read, declared, length, views⟩ := reads.of_object set (content object)
    obtain ⟨id', isVector, ids⟩ := hasType
    obtain rfl : id' = id := ElementType.table.inj (FieldType.vector.inj (isVector.symm.trans declared))
    rw [read]
    refine .tables ids (List.forall₂_iff_get.mpr ⟨same, fun j inside inside' => ?_⟩) length views
    exact elements j _ _ (List.getElem?_eq_getElem inside) (List.getElem?_eq_getElem inside')

section
variable {id rev i : Nat} {fields : List (Nat × Draft)} {d : Draft}
  (made : ((TableDraft.mk id fields).stored s false).Made h rev)
include made

/-- A field is stored only if it was asked for and is not left out. -/
theorem Built.fieldPosition?_of_not_kept (built : b.Built s h)
    (absent : ∀ d, (i, d) ∈ fields → d.omitted s id i) :
    b.finished.data.fieldPosition? (b.positionOf rev) i = none := by
  rw [TableDraft.stored] at made
  obtain ⟨object, rfl, _, _, only⟩ := made
  obtain ⟨_, _, laid⟩ : ∃ start slots, b.TableLaid rev _ start slots := built.laid _ object
  refine laid.fieldPosition?_of_unset fun x set => ?_
  obtain ⟨e, member, rfl⟩ := List.mem_map.mp (only i x set)
  obtain ⟨d, asked, kept, _⟩ := Draft.mem_storedEach.mp member
  simp [absent d asked] at kept

/-- A field that was asked for and is not left out is stored, and reads as it was asked for. -/
theorem Complete.readAs_of_kept (valid : s.Valid) (built : b.Built s h) (complete : b.Complete h)
    (asked : (i, d) ∈ fields) (kept : d.omitted s id i = false) {f : FieldDef}
    (field : s.field? id i = some f) (live : f.deprecated = false) (hasType : d.HasType s f.type) :
    (∃ holder, b.finished.data.fieldPosition? (b.positionOf rev) i = some holder) ∧
      (d.stored s false).ReadAs s b h f.type
        (TableView.field ⟨b.finished.data, b.positionOf rev⟩ s id i) := by
  have member : (i, d.stored s false) ∈ Draft.storedEach s false id fields :=
    Draft.mem_storedEach.mpr ⟨d, asked, by simpa using kept, rfl⟩
  rw [TableDraft.stored] at made
  obtain ⟨object, rfl, set, makes, _⟩ := made
  obtain ⟨x, isSet⟩ := set _ member
  obtain ⟨_, _, _, _, place⟩ := complete.exists_stored built object field isSet
  exact ⟨⟨_, place⟩, readAs_of_made valid built complete (makes _ member x isSet)
    (Draft.hasType_stored hasType) object field live isSet⟩

end
end Builder
end FlatTable

import FlatTable.Proofs.Builder.Verifies

/-! Readers of a finished buffer find what the builder was told. -/
namespace FlatTable
open Layout Build

def History.text? (h : History) (rev : Nat) : Option String :=
  match h.content? rev with
  | some (.string text) => some text
  | _ => none

namespace Builder

/-- What a field of this type reads as in the finished buffer, its table having been created with
the settings `a`. Only of floating-point numbers may the default be read for an equal one. -/
inductive ReadsBack (b : Builder) (h : History) (a : TableArgs) (i : Nat) (type : FieldType) :
    FieldValue → Prop where
  | scalar {v : Value} (set : a.settings[i]? = some (some (.scalar v))) :
      ReadsBack b h a i type (.scalar v)
  | equal {v d : Value} {format : Ieee.Format} (set : a.settings[i]? = some (some (.scalar v)))
      (default : a.schema.fieldDefault? a.table i = some d) (float : v.type.format? = some format)
      (same : d.numEq v) : ReadsBack b h a i type (.scalar d)
  | default {d : Value} (unset : ∀ x, a.settings[i]? ≠ some (some x))
      (default : a.schema.fieldDefault? a.table i = some d) : ReadsBack b h a i type (.scalar d)
  | absent (unset : ∀ x, a.settings[i]? ≠ some (some x)) (compound : type.isFixedWidth = false) :
      ReadsBack b h a i type .absent
  | struct {values : List Value} {view : StructView}
      (set : a.settings[i]? = some (some (.struct values)))
      (members : ∀ j, view.member? a.schema j = values[j]?) :
      ReadsBack b h a i type (.struct view)
  | string {p : Placed} {text : String} (set : a.settings[i]? = some (some (.reference p)))
      (object : h.content? p.rev = some (.string text)) : ReadsBack b h a i type (.string text)
  | scalars {p : Placed} {t : ScalarType} {items : List Value} {v : FieldVector}
      (set : a.settings[i]? = some (some (.reference p)))
      (object : h.content? p.rev = some (.scalars t items)) (length : v.length = items.length)
      (elements : v.items = items.map .scalar) : ReadsBack b h a i type (.vector v)
  | strings {p : Placed} {items : List (Ref .string)} {v : FieldVector}
      (set : a.settings[i]? = some (some (.reference p)))
      (object : h.content? p.rev = some (.strings items)) (length : v.length = items.length)
      (refers : ∀ j r, items[j]? = some r →
        b.finished.data.target? (v.start + j * offsetSize) = some (b.positionOf r.rev))
      (elements : v.items.map some = items.map fun r => (h.text? r.rev).map .string) :
      ReadsBack b h a i type (.vector v)
  | tables {p : Placed} {items : List (Ref .table)} {v : FieldVector} {id : Nat}
      (set : a.settings[i]? = some (some (.reference p)))
      (object : h.content? p.rev = some (.tables items)) (declared : type = .vector (.table id))
      (length : v.length = items.length)
      (elements : v.items = items.map fun r =>
        .table ⟨b.finished.data, b.positionOf r.rev⟩ id) : ReadsBack b h a i type (.vector v)
  | table {p : Placed} {id : Nat} {a' : TableArgs}
      (set : a.settings[i]? = some (some (.reference p)))
      (object : h.content? p.rev = some (.table a')) (declared : type = .table id) :
      ReadsBack b h a i type (.table ⟨b.finished.data, b.positionOf p.rev⟩ id)

namespace ReadsBack
variable {b : Builder} {h : History} {a : TableArgs} {i : Nat} {type : FieldType}
  {value : FieldValue}

/-- What a field reads as that was set to a struct. -/
theorem exists_view {values : List Value} (reads : b.ReadsBack h a i type value)
    (set : a.settings[i]? = some (some (.struct values))) :
    ∃ view, value = .struct view ∧ ∀ j, view.member? a.schema j = values[j]? := by
  cases reads with
  | struct set' members =>
    cases set.symm.trans set'
    exact ⟨_, rfl, members⟩
  | scalar set' | equal set' | string set' | scalars set' | strings set' | tables set' | table set' =>
    cases set.symm.trans set'
  | default unset | absent unset => exact absurd set (unset _)

/-- What a field reads as that was set to an object. -/
theorem of_object {p : Placed} {c : Content} (reads : b.ReadsBack h a i type value)
    (set : a.settings[i]? = some (some (.reference p))) (object : h.content? p.rev = some c) :
    match c with
    | .string text => value = .string text
    | .scalars _ items => ∃ v, value = .vector v ∧ v.length = items.length ∧ v.items = items.map .scalar
    | .strings items => ∃ v, value = .vector v ∧ v.length = items.length ∧
        v.items.map some = items.map fun r => (h.text? r.rev).map .string
    | .tables items => ∃ v id, value = .vector v ∧ type = .vector (.table id) ∧
        v.length = items.length ∧
          v.items = items.map fun r => .table ⟨b.finished.data, b.positionOf r.rev⟩ id
    | .table _ => ∃ id, type = .table id ∧
        value = .table ⟨b.finished.data, b.positionOf p.rev⟩ id := by
  have same {p' : Placed} {c' : Content} (set' : a.settings[i]? = some (some (.reference p')))
      (object' : h.content? p'.rev = some c') : p = p' ∧ c = c' := by
    cases set.symm.trans set'
    exact ⟨rfl, Option.some.inj (object.symm.trans object')⟩
  cases reads with
  | scalar set' | equal set' | struct set' => cases set.symm.trans set'
  | default unset | absent unset => exact absurd set (unset _)
  | string set' object' =>
    obtain ⟨rfl, rfl⟩ := same set' object'
    rfl
  | scalars set' object' length elements =>
    obtain ⟨rfl, rfl⟩ := same set' object'
    exact ⟨_, rfl, length, elements⟩
  | strings set' object' length refers elements =>
    obtain ⟨rfl, rfl⟩ := same set' object'
    exact ⟨_, rfl, length, elements⟩
  | tables set' object' declared length elements =>
    obtain ⟨rfl, rfl⟩ := same set' object'
    exact ⟨_, _, rfl, declared, length, elements⟩
  | table set' object' declared =>
    obtain ⟨rfl, rfl⟩ := same set' object'
    exact ⟨_, declared, rfl⟩

end ReadsBack
end Builder

/-- Where every element is read none is missing. -/
private theorem FieldVector.items_eq {v : FieldVector} {l : List FieldValue}
    (length : v.length = l.length) (get : ∀ i x, l[i]? = some x → v.get? i = some x) :
    v.items = l := by
  have full (i : Nat) (inside : i < v.length) : v.get? (0 + i) = l[i]? := by
    rw [Nat.zero_add]
    have found := List.getElem?_eq_getElem (length ▸ inside)
    rw [found]
    exact get i _ found
  apply List.ext_getElem?
  intro i
  rw [FieldVector.items, getElem?_readWhile fun i inside => ?_]
  · split
    · exact full i (by assumption)
    · rename_i outside
      rw [List.getElem?_eq_none (by omega)]
  · rw [full i inside, List.getElem?_eq_getElem (length ▸ inside)]
    rfl

/-- Of integers and booleans only the same one is equal. -/
theorem Value.eq_of_numEq {d v : Value} (same : d.numEq v) (exact : v.type.format? = none) :
    d = v := by
  rw [numEq, Bool.and_eq_true, beq_iff_eq] at same
  obtain ⟨type, same⟩ := same
  obtain ⟨type', pattern, fits⟩ := d
  obtain ⟨_, pattern', fits'⟩ := v
  obtain rfl : type' = _ := type
  dsimp only at exact same
  rw [exact] at same
  obtain rfl : pattern = pattern' := beq_iff_eq.mp same
  rfl

namespace Builder
variable {s : Schema} {h : History} {b : Builder}

/-- A struct's members are read from its bytes. -/
private theorem member?_structBytes {d : StructDef} {values : List Value} {id : Nat}
    (struct : s.structs[id]? = some d)
    (types : values.map Value.type = d.members.map Member.type) (j : Nat) :
    StructView.member? ⟨(structBytes d values).toArray, id⟩ s j = values[j]? := by
  have typeAt : (values.map Value.type)[j]? = (d.members.map Member.type)[j]? := by rw [types]
  rw [List.getElem?_map, List.getElem?_map] at typeAt
  simp only [StructView.member?, struct, Option.bind_eq_bind, Option.bind_some]
  cases value : values[j]? with
  | none =>
    rw [value, Option.map_none, eq_comm, Option.map_eq_none_iff] at typeAt
    rw [typeAt, Option.bind_none]
  | some v =>
    rw [value, Option.map_some, eq_comm, Option.map_eq_some_iff] at typeAt
    obtain ⟨m, member, type⟩ := typeAt
    obtain ⟨o, offset⟩ := StructDef.exists_offset member
    obtain ⟨front, back, split, length⟩ := structBytes_split types value offset
    rw [member, offset, Option.bind_some, Option.bind_some, type]
    exact Buffer.value?_of_slice? (Buffer.slice?_eq_some_iff.mpr
      ⟨v.length_bytes, front, back, split, length⟩)

namespace Built
variable (built : b.Built s h) {rev stored i : Nat} {a : TableArgs} {f : FieldDef}
  (field : s.field? a.table i = some f) (live : f.deprecated = false)
  (place : b.finished.data.fieldPosition? (b.positionOf rev) i = some (b.positionOf stored))

include field live place in
theorem readsBack_scalar {v : Value} {start : Nat} (holds : (Setting.scalar v).Fits s f.type)
    (laid : b.FieldLaid s f.type start stored (.scalar v)) :
    TableView.field ⟨b.finished.data, b.positionOf rev⟩ s a.table i = .scalar v := by
  have held : b.Held stored v.bytes := laid.held
  rw [TableView.field_of_scalar field live holds]
  simp only [TableView.scalarField?, place, Option.bind_some, held.value?, Option.map_some,
    Option.getD_some]

include field live place in
private theorem readsBack_struct {values : List Value} {start : Nat}
    (holds : (Setting.struct values).Fits s f.type)
    (laid : b.FieldLaid s f.type start stored (.struct values)) :
    ∃ view, (∀ j, view.member? s j = values[j]?) ∧
      TableView.field ⟨b.finished.data, b.positionOf rev⟩ s a.table i = .struct view := by
  obtain ⟨d, struct, types⟩ := holds
  have held := laid.held
  rw [Setting.bytes, struct] at held
  cases type : f.type with
  | struct id =>
    rw [type] at struct
    have read := held.slice?
    rw [length_structBytes types, ← (Setting.inlineWidth_of_structOf? struct).1] at read
    refine ⟨_, member?_structBytes struct types, ?_⟩
    rw [TableView.field_of_stored field live (by rw [type]; rfl), type]
    simp only [place, TableView.stored?, read, Option.bind_some, Option.map_some, Option.getD_some]
  | scalar t | enum id | string | vector e | table id =>
    rw [type] at struct
    cases struct

include built

private theorem exists_scalars {e : ElementType} {t : ScalarType} {items : List Value}
    (known : ⟨stored, .scalars t items⟩ ∈ h) (scalar : s.elementScalarType? e = some t) :
    ∃ v, FieldVector.at? s b.finished.data e (b.positionOf stored) = some v ∧
      v.length = items.length ∧ v.items = items.map .scalar := by
  have laid : b.ScalarsLaid stored t items := built.laid _ known
  have vector := built.vectorAt_scalars (o := .standard) known scalar
  refine ⟨_, FieldVector.at?_eq_some_iff.mpr ⟨_, vector.counted, vector.inside, rfl⟩, rfl,
    FieldVector.items_eq (by rw [List.length_map]) fun j x found => ?_⟩
  rw [List.getElem?_map, Option.map_eq_some_iff] at found
  obtain ⟨v, item, rfl⟩ := found
  have inside : j < items.length := (List.getElem?_eq_some_iff.mp item).1
  have read := laid.value? item
  rw [FieldVector.get?, if_pos inside]
  cases e with
  | scalar t' | enum id => simp only [scalar, read, Option.map_some]
  | string | table id => cases scalar

private theorem exists_strings {items : List (Ref .string)}
    (known : ⟨stored, .strings items⟩ ∈ h) :
    ∃ v, FieldVector.at? s b.finished.data .string (b.positionOf stored) = some v ∧
      v.length = items.length ∧
        (∀ j r, items[j]? = some r →
          b.finished.data.target? (v.start + j * offsetSize) = some (b.positionOf r.rev)) ∧
          v.items.map some = items.map fun r => (h.text? r.rev).map .string := by
  have laid : b.ReferencesLaid stored (items.map Ref.rev) := built.laid _ known
  have vector := built.vectorAt_references (o := .standard) (e := .string) laid rfl
  rw [List.length_map Ref.rev] at vector
  have element (j : Nat) (r : Ref .string) (found : items[j]? = some r) :=
    laid.element (show (items.map Ref.rev)[j]? = some r.rev by simp [found])
  refine ⟨_, FieldVector.at?_eq_some_iff.mpr ⟨_, vector.counted, vector.inside, rfl⟩, rfl,
    fun j r found => ?_, ?_⟩
  · obtain ⟨refers, place⟩ := element j r found
    rw [← place]
    exact refers.target? built.sound
  · have texts (r : Ref .string) (member : r ∈ items) :
        ∃ text, ⟨r.rev, .string text⟩ ∈ h ∧ h.text? r.rev = some text := by
      obtain ⟨text, object, _⟩ := built.grounded.string known member
      exact ⟨text, object, by rw [History.text?, built.grounded.content?_eq_some_iff.mpr object]⟩
    rw [FieldVector.items_eq (l := items.map fun r => .string ((h.text? r.rev).getD ""))
      (by rw [List.length_map]) fun j x found => ?_, List.map_map]
    · apply List.map_congr_left
      intro r member
      obtain ⟨text, _, same⟩ := texts r member
      rw [Function.comp_apply, same, Option.getD_some, Option.map_some]
    · rw [List.getElem?_map, Option.map_eq_some_iff] at found
      obtain ⟨r, item, rfl⟩ := found
      have inside : j < items.length := (List.getElem?_eq_some_iff.mp item).1
      obtain ⟨refers, place⟩ := element j r item
      obtain ⟨text, object, same⟩ := texts r (List.mem_of_getElem? item)
      have read := StringLaid.string? (built.laid _ object) built.sound refers
      rw [place] at read
      rw [FieldVector.get?, if_pos inside, same]
      simp only [read, Option.map_some, Option.getD_some]

private theorem exists_tables {items : List (Ref .table)} (id : Nat)
    (known : ⟨stored, .tables items⟩ ∈ h) :
    ∃ v, FieldVector.at? s b.finished.data (.table id) (b.positionOf stored) = some v ∧
      v.length = items.length ∧
        v.items = items.map fun r => .table ⟨b.finished.data, b.positionOf r.rev⟩ id := by
  have laid : b.ReferencesLaid stored (items.map Ref.rev) := built.laid _ known
  have vector := built.vectorAt_references (o := .standard) (e := .table id) laid rfl
  rw [List.length_map Ref.rev] at vector
  refine ⟨_, FieldVector.at?_eq_some_iff.mpr ⟨_, vector.counted, vector.inside, rfl⟩, rfl,
    FieldVector.items_eq (by rw [List.length_map]) fun j x found => ?_⟩
  rw [List.getElem?_map, Option.map_eq_some_iff] at found
  obtain ⟨r, item, rfl⟩ := found
  have inside : j < items.length := (List.getElem?_eq_some_iff.mp item).1
  obtain ⟨refers, place⟩ := laid.element
    (show (items.map Ref.rev)[j]? = some r.rev by simp [item])
  obtain ⟨a, object, _⟩ := built.grounded.table known (List.mem_of_getElem? item)
  have read := built.table? refers object
  rw [place] at read
  rw [FieldVector.get?, if_pos inside]
  simp only [read, Option.map_some]

include field live place in
private theorem readsBack_reference {p : Placed}
    (known : ⟨rev, .table a⟩ ∈ h) (set : a.settings[i]? = some (some (.reference p)))
    (holds : (Setting.reference p).Fits s f.type) (refers : b.Refers stored p.rev) :
    b.ReadsBack h a i f.type
      (TableView.field ⟨b.finished.data, b.positionOf rev⟩ s a.table i) := by
  obtain ⟨c, object, fulfils, _⟩ := built.exists_object known set holds
  have content := built.grounded.content?_eq_some_iff.mpr object
  have target := refers.target? built.sound
  rw [TableView.field_of_stored field live fulfils.compound]
  simp only [place, Option.bind_some]
  generalize f.type = type at fulfils
  cases fulfils with
  | string =>
    have read := StringLaid.string? (built.laid _ object) built.sound refers
    simp only [TableView.stored?, read, Option.map_some, Option.getD_some]
    exact .string set content
  | scalars scalar =>
    obtain ⟨v, read, length, elements⟩ := built.exists_scalars object scalar
    simp only [TableView.stored?, target, read, Option.bind_some, Option.map_some, Option.getD_some]
    exact .scalars set content length elements
  | strings =>
    obtain ⟨v, read, length, leads, elements⟩ := built.exists_strings object
    simp only [TableView.stored?, target, read, Option.bind_some, Option.map_some, Option.getD_some]
    exact .strings set content length leads elements
  | @tables id items =>
    obtain ⟨v, read, length, elements⟩ := built.exists_tables id object
    simp only [TableView.stored?, target, read, Option.bind_some, Option.map_some, Option.getD_some]
    exact .tables set content rfl length elements
  | table =>
    have read := built.table? refers object
    simp only [TableView.stored?, read, Option.map_some, Option.getD_some]
    exact .table set content rfl

include field live in
/-- Every field of a table that was created reads back. -/
theorem readsBack (valid : s.Valid) (known : ⟨rev, .table a⟩ ∈ h) :
    b.ReadsBack h a i f.type
      (TableView.field ⟨b.finished.data, b.positionOf rev⟩ s a.table i) := by
  obtain ⟨start, slots, laid⟩ : ∃ start slots, b.TableLaid rev a start slots := built.laid _ known
  have schema : a.schema = s := (built.fits _ known a rfl).schema
  have missing := TableView.field_of_missing (t := ⟨b.finished.data, b.positionOf rev⟩)
    valid field live
  by_cases set : ∃ x, a.settings[i]? = some (some x)
  · obtain ⟨x, set⟩ := set
    rcases laid.fieldPosition?_of_set set with
      ⟨stored, f', field', holds, _, fieldLaid, place⟩ | ⟨⟨v, rfl, default⟩, place⟩
    · rw [schema] at field' holds fieldLaid
      obtain rfl : f = f' := Option.some.inj (field.symm.trans field')
      cases x with
      | scalar v =>
        rw [readsBack_scalar field live place holds fieldLaid]
        exact .scalar set
      | struct values =>
        obtain ⟨view, members, read⟩ := readsBack_struct field live place holds fieldLaid
        rw [read]
        exact .struct set (by rw [schema]; exact members)
      | reference p =>
        exact built.readsBack_reference field live place known set holds
          (fieldLaid.refers holds)
    · unfold isDefault at default
      split at default
      · rename_i d found
        rw [missing place, ← schema, found, Option.map_some,
          Option.getD_some]
        cases format : v.type.format? with
        | none =>
          rw [Value.eq_of_numEq default format]
          exact .scalar set
        | some float => exact .equal set found format default
      · cases default
  · have unset (x : Setting) (found : a.settings[i]? = some (some x)) : False := set ⟨x, found⟩
    have place := laid.fieldPosition?_of_unset unset
    rw [missing place]
    cases fixed : f.type.isFixedWidth with
    | true =>
      obtain ⟨type, scalar⟩ := valid.scalarType field fixed
      obtain ⟨d, found, _⟩ := valid.fieldDefault field scalar
      rw [found, Option.map_some, Option.getD_some]
      exact .default unset (schema ▸ found)
    | false =>
      rw [Schema.fieldDefault?_of_compound field fixed]
      exact .absent unset fixed

end Built

/-- Reading leads from a table that was created to tables that were created. -/
theorem Built.of_reached (built : b.Built s h) (typed : h.Typed s) {root id : Nat}
    (isRoot : h.tableAt? root = some id) {t : TableView} {id' : Nat}
    (reached : s.Reached ⟨b.finished.data, b.positionOf root⟩ id t id') :
    ∃ rev a, ⟨rev, .table a⟩ ∈ h ∧ a.table = id' ∧ t = ⟨b.finished.data, b.positionOf rev⟩ := by
  have step {t t' : TableView} {id id' : Nat}
      (before : ∃ rev a, ⟨rev, .table a⟩ ∈ h ∧ a.table = id ∧
        t = ⟨b.finished.data, b.positionOf rev⟩)
      (next : t'.buffer = t.buffer ∧ (t'.position, id') ∈ t.buffer.nested s t.position id) :
      ∃ rev a, ⟨rev, .table a⟩ ∈ h ∧ a.table = id' ∧
        t' = ⟨b.finished.data, b.positionOf rev⟩ := by
    obtain ⟨rev, a, known, rfl, rfl⟩ := before
    obtain ⟨same, below⟩ := next
    rw [built.nested_eq typed known] at below
    obtain ⟨r, inSettings, place⟩ := List.mem_map.mp below
    obtain ⟨a', isTable, _, found⟩ := built.below known inSettings
    rw [found, Prod.mk.injEq] at place
    obtain ⟨buffer, position⟩ := t'
    obtain rfl : buffer = b.finished.data := same
    exact ⟨r, a', isTable, place.2, by rw [place.1]⟩
  induction reached with
  | root =>
    obtain ⟨a, known, called⟩ := built.grounded.tableAt?_eq_some_iff.mp isRoot
    exact ⟨root, a, known, called, rfl⟩
  | field _ read ih => exact step ih (TableView.nested_of_field read)
  | element _ read get ih => exact step ih (TableView.nested_of_element read get)

end Builder

namespace Construction
variable {s : Schema} {storage : Storage} {steps : List Step} {x : Construction}
  {root : Ref .table} {identifier : Option Identifier} {f : FinishedBuffer} {b' : Builder} {id : Nat}

/-- All tables that reading a finished buffer leads to are tables that were created, and their fields
read back. -/
theorem readsBack_of_finish (valid : s.validate = .ok ()) (ran : (start storage).run s steps = x)
    (typed : x.history.Typed s) (isRoot : x.history.tableAt? root.rev = some id)
    (finished : runFrom x.builder (Builder.finish root identifier) = (.ok f, b')) :
    f.data.rootPosition? = some (b'.positionOf root.rev) ∧
      ∀ t id', s.Reached ⟨f.data, b'.positionOf root.rev⟩ id t id' →
        ∃ rev a, ⟨rev, .table a⟩ ∈ x.history ∧ a.table = id' ∧ t = ⟨f.data, b'.positionOf rev⟩ ∧
          ∀ i field, s.field? id' i = some field → field.deprecated = false →
            b'.ReadsBack x.history a i field.type (t.field s id' i) := by
  have valid := Schema.valid_of_validate valid
  have sound := run_sound valid (start_sound s storage) steps
  rw [ran] at sound
  obtain ⟨rfl, built, rooted⟩ := sound.finish finished
  have reference := rooted.reference.target? built.sound
  rw [Builder.positionOf_length] at reference
  refine ⟨?_, ?_⟩
  · simpa [Buffer.target?, Buffer.rootPosition?] using reference
  · intro t id' reached
    obtain ⟨rev, a, known, rfl, rfl⟩ := built.of_reached typed isRoot reached
    exact ⟨rev, a, known, rfl, rfl, fun i field found live =>
      built.readsBack found live valid known⟩

theorem nodes_readBack :
    ∃ f b', runFrom nodes.builder (Builder.finish ⟨44⟩ none) = (.ok f, b') ∧
      f.data.rootPosition? = some (b'.positionOf 44) ∧
        ∀ t id', Verifier.nodeVerifier.schema.Reached ⟨f.data, b'.positionOf 44⟩ 0 t id' →
          ∃ rev a, ⟨rev, .table a⟩ ∈ nodes.history ∧ a.table = id' ∧
            t = ⟨f.data, b'.positionOf rev⟩ ∧
              ∀ i field, Verifier.nodeVerifier.schema.field? id' i = some field →
                field.deprecated = false → b'.ReadsBack nodes.history a i field.type
                  (t.field Verifier.nodeVerifier.schema id' i) := by
  obtain ⟨f, b', finished, _⟩ := nodes_finish
  exact ⟨f, b', finished, readsBack_of_finish rfl rfl nodes_typed nodes_isRoot finished⟩

end Construction
end FlatTable

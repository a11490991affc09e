import FlatTable.Proofs.Builder.Built
import FlatTable.Proofs.Verify.Accept

/-! What a builder has finished is well formed, and a walk through it meets the tables that the
history tells. -/
namespace FlatTable
open Layout Build

namespace Builder
variable {s : Schema} {h : History} {b : Builder} {o : VerifierOptions}

private abbrev walkOf (b : Builder) (s : Schema) (o : VerifierOptions) : Walk :=
  ⟨b.finished.data, s, o⟩

namespace Built
variable (built : b.Built s h)
include built

/-- A reference to an object of the history. -/
theorem refersTo {holder : Nat} {c : Creation} (refers : b.Refers holder c.rev) (known : c ∈ h) :
    (walkOf b s o).RefersTo (b.positionOf holder) (b.positionOf c.rev) := by
  obtain ⟨inBuffer, inFront⟩ := (built.laid c known).trailingPad_lt
  have holderInFront := refers.held.le
  have behind := refers.behind
  have small := built.sound.small
  simp only [offsetSize, maxBufferSize] at behind small
  refine ⟨fun _ => built.word_dvd refers.aligned, refers.target? built.sound, ?_, ?_, ?_⟩
  · simp only [positionOf]
    omega
  · simp only [positionOf]
    omega
  · change b.positionOf c.rev < b.finished.data.size
    rw [size_data]
    simp only [positionOf]
    omega

theorem stringAt {rev : Nat} {text : String} (known : ⟨rev, .string text⟩ ∈ h) :
    (walkOf b s o).StringAt (b.positionOf rev) (Text.encodeUtf8 text) := by
  have laid : b.StringLaid rev text := built.laid _ known
  exact ⟨fun _ => built.word_dvd laid.aligned, laid.counted built.sound, laid.read,
    by rw [Text.decodeUtf8?_encodeUtf8]; rfl, laid.terminated⟩

theorem refersToString {holder rev : Nat} {text : String} (refers : b.Refers holder rev)
    (known : ⟨rev, .string text⟩ ∈ h) :
    (walkOf b s o).RefersToString (b.positionOf holder) :=
  ⟨_, _, built.refersTo refers known, built.stringAt known⟩

theorem vectorAt_scalars {rev : Nat} {t : ScalarType} {items : List Value} {e : ElementType}
    (known : ⟨rev, .scalars t items⟩ ∈ h) (scalar : s.elementScalarType? e = some t) :
    (walkOf b s o).VectorAt e (b.positionOf rev) items.length := by
  have laid : b.ScalarsLaid rev t items := built.laid _ known
  have width : s.elementWidth e = t.width := by
    rw [Schema.elementWidth, scalar, Option.map_some, Option.getD_some]
  have before := laid.counted.before
  rw [Bytes.length_encode] at before
  refine ⟨fun _ => built.word_dvd laid.aligned, laid.nat? built.sound, ?_, ?_⟩
  · change _ + _ + _ * s.elementWidth e ≤ _
    rw [width]
    exact laid.inside
  · intro _ _
    change s.elementWidth e ∣ _
    rw [width, ← positionOf_sub (by omega) laid.counted.le]
    exact built.aligned_positionOf t.width_dvd_eight laid.minAlign laid.elementsAligned

theorem vectorAt_references {rev : Nat} {targets : List Nat} {e : ElementType}
    (laid : b.ReferencesLaid rev targets) (reference : s.elementScalarType? e = none) :
    (walkOf b s o).VectorAt e (b.positionOf rev) targets.length := by
  have width : s.elementWidth e = offsetSize := by
    rw [Schema.elementWidth, reference, Option.map_none, Option.getD_none]
  refine ⟨fun _ => built.word_dvd laid.aligned, laid.nat? built.sound, ?_, ?_⟩
  · change _ + _ + _ * s.elementWidth e ≤ _
    rw [width]
    exact laid.inside
  · intro _ _
    change s.elementWidth e ∣ _
    rw [width]
    exact Nat.dvd_add (built.word_dvd laid.aligned) (Nat.dvd_refl _)

theorem vtableAt {object start : Nat} {a : TableArgs} {slots : List Nat}
    (laid : b.TableLaid object a start slots) :
    (walkOf b s o).VtableAt (b.positionOf object)
      (b.positionOf (object + (slots.length + 2) * slotSize))
      (vtableHeader + slots.length * slotSize) (object - start) := by
  have inFront := laid.vtable.le
  have before := laid.before
  have room := laid.room
  have padded := built.sound.trailingPad
  have evenObject : slotSize ∣ object := Nat.dvd_trans (by decide) laid.aligned
  have even : slotSize ∣ object + (slots.length + 2) * slotSize :=
    Nat.dvd_add evenObject (Nat.dvd_mul_left _ _)
  simp only [offsetSize] at room
  refine ⟨fun _ => built.word_dvd laid.aligned, laid.vtable?, ?_, laid.vtableSize,
    ?_, Nat.le_add_right _ _, ?_, laid.size, ?_, ?_⟩
  · intro _
    exact built.aligned_positionOf (by decide) (Nat.le_trans (by decide) built.aligned) even
  · exact Nat.dvd_add (by decide) (Nat.dvd_mul_left _ _)
  · change _ ≤ b.finished.data.size
    rw [size_data]
    simp only [positionOf, vtableHeader, slotSize] at inFront ⊢
    omega
  · simp only [offsetSize]
    omega
  · change _ ≤ b.finished.data.size
    rw [size_data]
    simp only [positionOf, slotSize] at inFront ⊢
    omega

end Built

/-- A reference that a field holds. -/
theorem FieldLaid.refers {type : FieldType} {start rev : Nat} {p : Placed}
    (laid : b.FieldLaid s type start rev (.reference p))
    (fits : (Setting.reference p).Fits s type) : b.Refers rev p.rev := by
  obtain ⟨positive, behind⟩ := laid.reference p rfl
  have aligned := laid.aligned
  rw [(Setting.inlineWidth_of_accepts fits).2] at aligned
  exact ⟨positive, behind, aligned, laid.held⟩

/-- What a reference in a field leads to is an object of the kind that the field accepts. -/
inductive Fulfils (s : Schema) : FieldType → Content → Prop where
  | string {text : String} : Fulfils s .string (.string text)
  | scalars {e : ElementType} {t : ScalarType} {items : List Value}
      (scalar : s.elementScalarType? e = some t) : Fulfils s (.vector e) (.scalars t items)
  | strings {items : List (Ref .string)} : Fulfils s (.vector .string) (.strings items)
  | tables {id : Nat} {items : List (Ref .table)} : Fulfils s (.vector (.table id)) (.tables items)
  | table {id : Nat} {a : TableArgs} : Fulfils s (.table id) (.table a)

theorem fulfils_of_accepts {type : FieldType} {c : Content} (h : s.accepts type c.kind) :
    Fulfils s type c := by
  cases type with
  | scalar t | enum id | struct id => cases c <;> simp [Schema.accepts] at h
  | string =>
    cases c with
    | string text => exact .string
    | scalars t items | strings items | tables items | table a =>
      simp [Schema.accepts, Content.kind] at h
  | table id =>
    cases c with
    | table a => exact .table
    | string text | scalars t items | strings items | tables items =>
      simp [Schema.accepts, Content.kind] at h
  | vector e =>
    cases c with
    | scalars t items => exact .scalars (by cases e <;> simpa [Schema.accepts, Content.kind] using h)
    | strings items => cases e <;> first | exact .strings | simp [Schema.accepts, Content.kind] at h
    | tables items => cases e <;> first | exact .tables | simp [Schema.accepts, Content.kind] at h
    | string text | table a => cases e <;> simp [Schema.accepts, Content.kind] at h

theorem Fulfils.compound {type : FieldType} {c : Content} (h : Fulfils s type c) :
    type.isFixedWidth = false := by
  cases h <;> rfl

/-- A field that is present was set, and is stored where the vtable says. -/
theorem TableLaid.exists_stored {rev start i holder : Nat} {a : TableArgs} {slots : List Nat}
    (laid : b.TableLaid rev a start slots)
    (place : b.finished.data.fieldPosition? (b.positionOf rev) i = some holder) :
    ∃ x f stored, a.settings[i]? = some (some x) ∧ a.schema.field? a.table i = some f ∧
      x.Fits a.schema f.type ∧ stored + offsetSize ≤ rev ∧
        b.FieldLaid a.schema f.type start stored x ∧ holder = b.positionOf stored := by
  by_cases set : ∃ x, a.settings[i]? = some (some x)
  · obtain ⟨x, set⟩ := set
    rcases laid.fieldPosition?_of_set set with ⟨stored, f, field, fits, inside, fieldLaid, found⟩ | h
    · rw [place] at found
      exact ⟨x, f, stored, set, field, fits, inside, fieldLaid, Option.some.inj found⟩
    · rw [h.2] at place
      cases place
  · rw [laid.fieldPosition?_of_unset fun x found => set ⟨x, found⟩] at place
    cases place

/-- An element of a vector of references. -/
theorem ReferencesLaid.exists_element {kind : ObjectKind} {items : List (Ref kind)} {rev i : Nat}
    (laid : b.ReferencesLaid rev (items.map Ref.rev)) (inside : i < (items.map Ref.rev).length) :
    ∃ r ∈ items, b.Refers (rev - offsetSize - i * offsetSize) r.rev ∧
      b.positionOf (rev - offsetSize - i * offsetSize) =
        b.positionOf rev + offsetSize + i * offsetSize := by
  have found := List.getElem?_eq_getElem inside
  rw [List.getElem_map] at found
  exact ⟨_, List.getElem_mem _, laid.element found⟩

namespace Built
variable (built : b.Built s h)
include built

/-- The object that a field of a table refers to. -/
theorem exists_object {rev i : Nat} {a : TableArgs} {p : Placed} {type : FieldType}
    (known : ⟨rev, .table a⟩ ∈ h) (set : a.settings[i]? = some (some (.reference p)))
    (fits : (Setting.reference p).Fits s type) :
    ∃ c, ⟨p.rev, c⟩ ∈ h ∧ Fulfils s type c ∧ p.rev < rev := by
  obtain ⟨c, object, kind, before⟩ := built.grounded.reference known set
  have accepts : s.accepts type p.kind := fits
  exact ⟨c, object, fulfils_of_accepts (kind ▸ accepts), before⟩

/-- What a field refers to is there. -/
private theorem fieldAt {type : FieldType} {holder rev : Nat} {c : Content}
    (refers : b.Refers holder rev) (object : ⟨rev, c⟩ ∈ h) (fulfils : Fulfils s type c) :
    (walkOf b s o).FieldAt type (b.positionOf holder) := by
  have reference := built.refersTo (o := o) refers object
  cases fulfils with
  | string => exact built.refersToString refers object
  | table => exact ⟨_, reference⟩
  | @scalars e t items scalar =>
    refine ⟨_, _, reference, built.vectorAt_scalars object scalar, ?_⟩
    cases e with
    | scalar t | enum id => trivial
    | string | table id => cases scalar
  | @strings items =>
    have laid : b.ReferencesLaid rev (items.map Ref.rev) := built.laid _ object
    refine ⟨_, _, reference, built.vectorAt_references laid rfl, ?_⟩
    intro i inside
    obtain ⟨r, member, element, place⟩ := laid.exists_element inside
    obtain ⟨text, known, _⟩ := built.grounded.string object member
    rw [← place]
    exact built.refersToString element known
  | @tables id items =>
    have laid : b.ReferencesLaid rev (items.map Ref.rev) := built.laid _ object
    refine ⟨_, _, reference, built.vectorAt_references laid rfl, ?_⟩
    intro i inside
    obtain ⟨r, member, element, place⟩ := laid.exists_element inside
    obtain ⟨a, known, _⟩ := built.grounded.table object member
    rw [← place]
    exact ⟨_, built.refersTo element known⟩

theorem tableAt {rev : Nat} {a : TableArgs} (known : ⟨rev, .table a⟩ ∈ h) :
    (walkOf b s o).TableAt (b.positionOf rev) a.table := by
  obtain ⟨start, slots, laid⟩ : ∃ start slots, b.TableLaid rev a start slots := built.laid _ known
  have fits := built.fits _ known a rfl
  obtain ⟨t, table, _⟩ := fits.table
  refine ⟨(Array.getElem?_eq_some_iff.mp table).1, _, _, _, built.vtableAt laid, ?_⟩
  intro i f holder field place
  obtain ⟨x, f', stored, set, field', holds, inside, fieldLaid, rfl⟩ := laid.exists_stored place
  rw [fits.schema] at field' holds fieldLaid
  obtain rfl : f = f' := Option.some.inj (field.symm.trans field')
  have inFront := laid.back.le
  have bounds := fieldLaid.inside
  simp only [offsetSize] at inside
  refine ⟨?_, ?_, ?_, ?_⟩
  · simp only [positionOf, offsetSize]
    omega
  · change _ + s.inlineWidth f.type ≤ _
    simp only [positionOf]
    omega
  · intro _
    exact built.aligned_positionOf (Setting.inlineAlignment_dvd_eight holds) fieldLaid.minAlign
      fieldLaid.aligned
  · cases x with
    | reference p =>
      obtain ⟨c, object, fulfils, _⟩ := built.exists_object known set holds
      exact built.fieldAt (fieldLaid.refers holds) object fulfils
    | scalar v =>
      have scalar : s.scalarType? f.type = some v.type := holds
      cases type : f.type <;> simp_all [Schema.scalarType?, Walk.FieldAt]
    | struct values =>
      obtain ⟨d, struct, _⟩ := holds
      cases type : f.type <;> simp_all [TableArgs.structOf?, Walk.FieldAt]

end Built

/-! ### Tables below tables -/

theorem flatMap_zipIdx_eq {α β γ : Type} {f : α × Nat → List γ} {g : β → List γ} :
    ∀ {l : List α} {l' : List β} {start : Nat}, l.length = l'.length →
      (∀ i x y, l[i]? = some x → l'[i]? = some y → f (x, start + i) = g y) →
        (l.zipIdx start).flatMap f = l'.flatMap g
  | [], [], _, _, _ => rfl
  | x :: l, y :: l', start, length, same => by
    have first : f (x, start) = g y := same 0 x y rfl rfl
    rw [List.zipIdx_cons, List.flatMap_cons, List.flatMap_cons, first]
    refine congrArg (g y ++ ·) (flatMap_zipIdx_eq (Nat.succ.inj length) ?_)
    intro i x' y' hx hy
    rw [← same (i + 1) x' y' hx hy, Nat.add_right_comm, Nat.add_assoc]

private theorem filterMap_eq_of_map_eq {α β : Type} {f : α → Option β} {l : List α} {l' : List β}
    (h : l.map f = l'.map some) : l.filterMap f = l' := by
  have same := congrArg (List.filterMap id) h
  rwa [List.filterMap_map, List.filterMap_map, Function.id_comp, Function.id_comp,
    List.filterMap_some] at same

def found (b : Builder) (h : History) (r : Nat) : Nat × Nat :=
  (b.positionOf r, (h.tableAt? r).getD 0)

namespace Built
variable (built : b.Built s h)
include built

theorem table? {holder : Nat} {c : Creation} (refers : b.Refers holder c.rev) (known : c ∈ h) :
    b.finished.data.table? (b.positionOf holder) =
      some ⟨b.finished.data, b.positionOf c.rev⟩ :=
  (built.refersTo (o := .standard) refers known).table?

/-- The tables that a field refers to in the buffer are those of its setting. -/
private theorem nestedAt_eq {rev i stored : Nat} {a : TableArgs} {p : Placed} {f : FieldDef}
    (typed : h.Typed s) (known : ⟨rev, .table a⟩ ∈ h) (field : s.field? a.table i = some f)
    (set : a.settings[i]? = some (some (.reference p))) (refers : b.Refers stored p.rev)
    (fits : (Setting.reference p).Fits s f.type) :
    b.finished.data.nestedAt f.type (b.positionOf stored) =
      (h.tablesOf (some (.reference p))).map (found b h) := by
  obtain ⟨c, object, fulfils, _⟩ := built.exists_object known set fits
  have content := built.grounded.content?_eq_some_iff.mpr object
  have called : ∀ id ∈ f.type.tables?, ∀ r ∈ h.tablesOf (some (.reference p)),
      h.tableAt? r = some id := fun _ tables _ => typed.tableAt?_eq known field set tables
  simp only [History.tablesOf, content] at called ⊢
  generalize f.type = type at fulfils called
  cases fulfils with
  | string => rfl
  | strings => rfl
  | @scalars e t items scalar => cases e <;> first | rfl | cases scalar
  | table =>
    simp only [Buffer.nestedAt, Buffer.tablesAt, List.filterMap_cons, List.filterMap_nil,
      built.table? refers object, Option.map_some, List.map_cons, List.map_nil, found,
      called _ rfl _ List.mem_cons_self, Option.getD_some]
  | @tables id items =>
    have laid : b.ReferencesLaid p.rev (items.map Ref.rev) := built.laid _ object
    have holders := laid.nat? built.sound
    simp only [Buffer.nestedAt, Buffer.elementHolders, refers.target? built.sound, holders,
      Option.getD_some, Buffer.tablesAt]
    refine filterMap_eq_of_map_eq (List.ext_getElem (by simp) ?_)
    intro i inside _
    simp only [List.length_map, List.length_range] at inside
    obtain ⟨element, place⟩ := laid.element
      (show (items.map Ref.rev)[i]? = some items[i].rev by simp [inside])
    obtain ⟨a', known', _⟩ := built.grounded.table object (List.getElem_mem inside)
    have typedItem := called id rfl _ (List.mem_map_of_mem (List.getElem_mem inside))
    simp only [List.getElem_map, List.getElem_range, ← place, built.table? element known',
      Option.map_some, found, typedItem, Option.getD_some]

/-- The tables below a table of the buffer are those that its settings refer to. -/
theorem nested_eq {rev : Nat} {a : TableArgs} (typed : h.Typed s)
    (known : ⟨rev, .table a⟩ ∈ h) :
    b.finished.data.nested s (b.positionOf rev) a.table =
      (a.settings.toList.flatMap h.tablesOf).map (found b h) := by
  obtain ⟨start, slots, laid⟩ : ∃ start slots, b.TableLaid rev a start slots := built.laid _ known
  have fits := built.fits _ known a rfl
  obtain ⟨t, table, size⟩ := fits.table
  rw [List.map_flatMap, Buffer.nested, table]
  apply flatMap_zipIdx_eq (by simpa using size.symm)
  intro i f x field set
  rw [Array.getElem?_toList] at field set
  rw [Nat.zero_add]
  have isField : s.field? a.table i = some f := by rw [Schema.field?, table, Option.bind_some, field]
  cases x with
  | none =>
    have place := laid.fieldPosition?_of_unset fun x found => by rw [set] at found; cases found
    simp only [place]
    rfl
  | some x =>
    rcases laid.fieldPosition?_of_set set with
      ⟨stored, f', field', holds, inside, fieldLaid, place⟩ | ⟨omitted, place⟩
    · rw [fits.schema] at field' holds fieldLaid
      obtain rfl : f = f' := Option.some.inj (isField.symm.trans field')
      simp only [place, Option.map_some, Option.getD_some]
      cases x with
      | reference p =>
        exact built.nestedAt_eq typed known isField set (fieldLaid.refers holds) holds
      | scalar v =>
        have scalar : s.scalarType? f.type = some v.type := holds
        cases type : f.type <;> simp_all [Schema.scalarType?, Buffer.nestedAt, History.tablesOf]
      | struct values =>
        obtain ⟨d, struct, _⟩ := holds
        cases type : f.type <;>
          simp_all [TableArgs.structOf?, Buffer.nestedAt, History.tablesOf]
    · obtain ⟨v, rfl, _⟩ := omitted
      simp only [place]
      rfl

/-- The tables below a table are tables of the history. -/
theorem below {rev : Nat} {a : TableArgs} (known : ⟨rev, .table a⟩ ∈ h) {r : Nat}
    (member : r ∈ a.settings.toList.flatMap h.tablesOf) :
    ∃ a', ⟨r, .table a'⟩ ∈ h ∧ r < rev ∧ found b h r = (b.positionOf r, a'.table) := by
  obtain ⟨x, set, inSetting⟩ := List.mem_flatMap.mp member
  obtain ⟨a', isTable, before⟩ := built.grounded.mem_tablesOf known set inSetting
  exact ⟨a', isTable, before, by
    rw [found, built.grounded.tableAt?_eq_some_iff.mpr ⟨a', isTable, rfl⟩, Option.getD_some]⟩

/-- The number of a table in the buffer is its number in the history. -/
theorem tally_eq (c : Tally) (typed : h.Typed s) {rev : Nat} {a : TableArgs}
    (known : ⟨rev, .table a⟩ ∈ h) :
    Buffer.tally c b.finished.data s (b.positionOf rev) a.table = h.tally c rev := by
  induction rev using Nat.strongRecOn generalizing a with
  | ind rev ih =>
    rw [Buffer.tally_eq, built.nested_eq typed known, built.grounded.tally_eq c known, List.map_map]
    refine congrArg (1 + c.all ·) (List.map_congr_left ?_)
    intro r member
    obtain ⟨a', isTable, before, place⟩ := built.below known member
    rw [Function.comp_apply, place]
    exact ih r before isTable

/-- Every table of the history is well formed in the buffer. -/
theorem wellFormed (typed : h.Typed s) {rev : Nat} {a : TableArgs} (known : ⟨rev, .table a⟩ ∈ h) :
    (walkOf b s o).WellFormed (b.positionOf rev) a.table := by
  induction rev using Nat.strongRecOn generalizing a with
  | ind rev ih =>
    refine .intro (built.tableAt known) ?_
    intro n member
    have nested := built.nested_eq typed known
    obtain ⟨r, inSettings, rfl⟩ := List.mem_map.mp (nested ▸ member)
    obtain ⟨a', isTable, before, place⟩ := built.below known inSettings
    rw [place]
    exact ih r before isTable

end Built
end Builder
end FlatTable

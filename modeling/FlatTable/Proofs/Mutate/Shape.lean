import FlatTable.Proofs.Verify.Accept
import FlatTable.Proofs.Padding
import FlatTable.Proofs.Schema.Valid

/-! The bytes that tell where the parts of a table are. A buffer that has the same ones is read in the
same way, and its table is as well formed, as far as its strings are still texts. -/
namespace FlatTable
open Layout

namespace Buffer

def SameAt (b b' : Buffer) (position length : Nat) : Prop :=
  ∀ k, position ≤ k → k < position + length → b'[k]? = b[k]?

section
variable {b b' : Buffer} {position length : Nat}

theorem SameAt.within (h : b.SameAt b' position length) {start count : Nat}
    (first : position ≤ start) (last : start + count ≤ position + length) :
    b.SameAt b' start count :=
  fun k low high => h k (Nat.le_trans first low) (Nat.lt_of_lt_of_le high last)

theorem SameAt.slice? (size : b'.size = b.size) (h : b.SameAt b' position length) :
    b'.slice? position length = b.slice? position length := by
  simp only [Buffer.slice?, size]
  split
  · refine congrArg some (List.ext_getElem? ?_)
    intro i
    rw [Array.getElem?_toList, Array.getElem?_toList, Array.getElem?_extract,
      Array.getElem?_extract, size]
    split
    · exact h _ (Nat.le_add_right _ _) (by omega)
    · rfl
  · rfl

theorem SameAt.nat? (size : b'.size = b.size) (h : b.SameAt b' position length) :
    b'.nat? position length = b.nat? position length := by
  rw [Buffer.nat?, Buffer.nat?, h.slice? size]

theorem SameAt.target? (size : b'.size = b.size) (h : b.SameAt b' position offsetSize) :
    b'.target? position = b.target? position := by
  rw [Buffer.target?, Buffer.target?, h.nat? size]

theorem SameAt.vtable? (size : b'.size = b.size) (h : b.SameAt b' position offsetSize) :
    b'.vtable? position = b.vtable? position := by
  have read : b'.nat? position ScalarType.int.width = b.nat? position ScalarType.int.width :=
    h.nat? size
  simp only [Buffer.vtable?, value?, read]

end

def IsText (b : Buffer) (position length : Nat) : Prop :=
  ((b.slice? position length).bind Text.decodeUtf8?).isSome

variable (b : Buffer) (s : Schema) (position id : Nat)

/-- A table stores something of this type at `holder`, by itself or in one of its vectors. -/
inductive Holds : FieldType → Nat → Prop
  | field {i holder : Nat} {f : FieldDef} (found : s.field? id i = some f)
      (place : b.fieldPosition? position i = some holder) : Holds f.type holder
  | string {vector holder : Nat} (inside : Holds (.vector .string) vector)
      (member : holder ∈ b.elementHolders vector) : Holds .string holder
  | table {vector holder nested : Nat} (inside : Holds (.vector (.table nested)) vector)
      (member : holder ∈ b.elementHolders vector) : Holds (.table nested) holder

/-- The bytes that tell where the parts of a table are: distances, lengths, the entries of its vtable
and the zeros behind strings. -/
inductive Shape : Nat → Nat → Prop
  | table : Shape position offsetSize
  | vtable {vtable : Nat} (read : b.vtable? position = some vtable) : Shape vtable vtableHeader
  | entry {vtable size i : Nat} {f : FieldDef} (read : b.vtable? position = some vtable)
      (counted : b.nat? vtable slotSize = some size) (found : s.field? id i = some f)
      (inside : slotOf i + slotSize ≤ size) : Shape (vtable + slotOf i) slotSize
  | reference {type : FieldType} {holder : Nat} (holds : b.Holds s position id type holder)
      (refers : type.isInline = false) : Shape holder offsetSize
  | string {holder target : Nat} (holds : b.Holds s position id .string holder)
      (leads : b.target? holder = some target) : Shape target offsetSize
  | terminator {holder target length : Nat} (holds : b.Holds s position id .string holder)
      (leads : b.target? holder = some target) (counted : b.nat? target offsetSize = some length) :
      Shape (target + offsetSize + length) 1
  | vector {holder target : Nat} {element : ElementType}
      (holds : b.Holds s position id (.vector element) holder)
      (leads : b.target? holder = some target) : Shape target offsetSize

inductive Text : Nat → Nat → Prop
  | of_holds {holder target length : Nat} (holds : b.Holds s position id .string holder)
      (leads : b.target? holder = some target) (counted : b.nat? target offsetSize = some length) :
      Text (target + offsetSize) length

structure SameShape (b' : Buffer) : Prop where
  size : b'.size = b.size
  same : ∀ p n, b.Shape s position id p n → b.SameAt b' p n

namespace SameShape
variable {b s position id} {b' : Buffer} (h : b.SameShape s position id b')
include h

theorem vtable? : b'.vtable? position = b.vtable? position := (h.same _ _ .table).vtable? h.size

theorem vtableSize {vtable : Nat} (read : b.vtable? position = some vtable) :
    b'.nat? vtable slotSize = b.nat? vtable slotSize :=
  ((h.same _ _ (.vtable read)).within (Nat.le_refl _) (by simp [slotSize, vtableHeader])).nat? h.size

theorem tableSize {vtable : Nat} (read : b.vtable? position = some vtable) :
    b'.nat? (vtable + slotSize) slotSize = b.nat? (vtable + slotSize) slotSize :=
  ((h.same _ _ (.vtable read)).within (Nat.le_add_right _ _)
    (by simp [slotSize, vtableHeader, Nat.add_assoc])).nat? h.size

/-- The fields of the table are at the same places. -/
theorem fieldPosition? {i : Nat} {f : FieldDef} (found : s.field? id i = some f) :
    b'.fieldPosition? position i = b.fieldPosition? position i := by
  simp only [Buffer.fieldPosition?, slotPosition?, h.vtable?, Option.bind_eq_bind]
  split
  · rfl
  · apply Option.bind_congr
    intro vtable read
    rw [h.vtableSize read]
    apply Option.bind_congr
    intro size counted
    split
    · rename_i inside
      rw [(h.same _ _ (.entry read counted found inside)).nat? h.size]
    · rfl

theorem target? {type : FieldType} {holder : Nat} (holds : b.Holds s position id type holder)
    (refers : type.isInline = false) : b'.target? holder = b.target? holder :=
  (h.same _ _ (.reference holds refers)).target? h.size

theorem stringLength {holder target : Nat} (holds : b.Holds s position id .string holder)
    (leads : b.target? holder = some target) :
    b'.nat? target offsetSize = b.nat? target offsetSize :=
  (h.same _ _ (.string holds leads)).nat? h.size

theorem vectorLength {holder target : Nat} {element : ElementType}
    (holds : b.Holds s position id (.vector element) holder)
    (leads : b.target? holder = some target) :
    b'.nat? target offsetSize = b.nat? target offsetSize :=
  (h.same _ _ (.vector holds leads)).nat? h.size

theorem elementHolders {holder : Nat} {element : ElementType}
    (holds : b.Holds s position id (.vector element) holder) :
    b'.elementHolders holder = b.elementHolders holder := by
  simp only [Buffer.elementHolders, h.target? holds rfl]
  split
  · rfl
  · rename_i target leads
    rw [h.vectorLength holds leads]

/-- The tables that references lead to are at the same places. -/
private theorem tablesAt {nested : Nat} {holders : List Nat}
    (holds : ∀ x ∈ holders, b.Holds s position id (.table nested) x) :
    b'.tablesAt nested holders = b.tablesAt nested holders := by
  apply List.filterMap_congr
  intro holder member
  simp only [Buffer.table?, h.target? (holds holder member) rfl, h.size]
  cases b.target? holder with
  | none => rfl
  | some target =>
    simp only [Option.bind_some]
    split <;> rfl

/-- The tables below the table are the same. -/
theorem nested : b'.nested s position id = b.nested s position id := by
  simp only [Buffer.nested]
  split
  · rfl
  · rename_i t table
    apply List.flatMap_congr
    intro x member
    obtain ⟨f, i⟩ := x
    have found := (Schema.mem_zipIdx_fields table).mp member
    dsimp only
    rw [h.fieldPosition? found]
    cases place : b.fieldPosition? position i with
    | none => rfl
    | some holder =>
      have holds : b.Holds s position id f.type holder := .field found place
      simp only [Option.map_some, Option.getD_some, nestedAt]
      split
      · rename_i nested type
        exact h.tablesAt (by simpa [type] using holds)
      · rename_i nested type
        rw [type] at holds
        rw [h.elementHolders holds]
        exact h.tablesAt fun x inVector => .table holds inVector
      · rfl

end SameShape
end Buffer

namespace Walk
variable {w : Walk} {position id : Nat} {b' : Buffer}

abbrev through (w : Walk) (b' : Buffer) : Walk := { w with buffer := b' }

section
variable (h : w.buffer.SameShape w.schema position id b')
include h

private theorem refersTo_iff {type : FieldType} {holder target : Nat}
    (holds : w.buffer.Holds w.schema position id type holder) (refers : type.isInline = false) :
    (w.through b').RefersTo holder target ↔ w.RefersTo holder target := by
  have same := h.target? holds refers
  constructor
  · intro given
    obtain ⟨aligned, read, forward, near, inside⟩ := given
    exact ⟨aligned, by rw [← same]; exact read, forward, near, by rw [← h.size]; exact inside⟩
  · intro given
    obtain ⟨aligned, read, forward, near, inside⟩ := given
    exact ⟨aligned, by rw [← read]; exact same, forward, near, h.size ▸ inside⟩

/-- A reference to a string leads to one in the other buffer if the bytes there are still a text. -/
private theorem refersToString_iff {holder : Nat}
    (holds : w.buffer.Holds w.schema position id .string holder) (good : w.RefersToString holder) :
    (w.through b').RefersToString holder ↔ ∀ target length,
      w.buffer.target? holder = some target → w.buffer.nat? target offsetSize = some length →
        b'.IsText (target + offsetSize) length := by
  obtain ⟨target, bytes, reference, string⟩ := good
  have counted := (h.stringLength holds reference.read).trans string.counted
  constructor
  · intro given t n leads count
    obtain ⟨target', bytes', reference', string'⟩ := given
    have same := ((refersTo_iff h holds rfl).mp reference').read
    obtain rfl : target' = t := Option.some.inj (same.symm.trans leads)
    have length : b'.nat? target' offsetSize = some bytes'.length := string'.counted
    rw [h.stringLength holds leads, count] at length
    obtain rfl : n = bytes'.length := Option.some.inj length
    have read : b'.slice? (target' + offsetSize) bytes'.length = some bytes' := string'.read
    rw [Buffer.IsText, read]
    exact string'.decodes
  · intro text
    have decodes := text target bytes.length reference.read string.counted
    have inside : target + offsetSize + bytes.length ≤ b'.size := by
      rw [h.size]
      exact Buffer.le_of_slice? string.read
    obtain ⟨bytes', read, length⟩ := Buffer.slice?_of_le inside
    rw [Buffer.IsText, read] at decodes
    refine ⟨target, bytes', (refersTo_iff h holds rfl).mpr reference, string.aligned,
      by rw [length]; exact counted, by rw [length]; exact read, decodes, ?_⟩
    have terminator := h.same _ _ (.terminator holds reference.read string.counted)
    rw [length]
    exact (terminator _ (Nat.le_refl _) (Nat.lt_succ_self _)).trans string.terminated

/-- What a field refers to is still there if the table's strings are still texts. -/
private theorem fieldAt_of_text {type : FieldType} {holder : Nat}
    (holds : w.buffer.Holds w.schema position id type holder) (good : w.FieldAt type holder)
    (text : ∀ p n, w.buffer.Text w.schema position id p n → b'.IsText p n) :
    (w.through b').FieldAt type holder := by
  have string {holder : Nat} (holds : w.buffer.Holds w.schema position id .string holder)
      (good : w.RefersToString holder) : (w.through b').RefersToString holder :=
    (refersToString_iff h holds good).mpr fun target length leads counted =>
      text _ _ (.of_holds holds leads counted)
  cases type with
  | scalar t | enum enum | struct struct => trivial
  | string => exact string holds good
  | table nested =>
    obtain ⟨target, reference⟩ := good
    exact ⟨target, (refersTo_iff h holds rfl).mpr reference⟩
  | vector element =>
    obtain ⟨target, length, reference, vector, elements⟩ := good
    have member (i : Nat) (inside : i < length) :=
      (Buffer.mem_elementHolders reference.read vector.counted).mpr ⟨i, inside, rfl⟩
    refine ⟨target, length, (refersTo_iff h holds rfl).mpr reference,
      ⟨vector.aligned, (h.vectorLength holds reference.read).trans vector.counted,
        h.size ▸ vector.inside, vector.elementsAligned⟩, ?_⟩
    cases element with
    | scalar t | enum enum => trivial
    | string => exact fun i inside => string (.string holds (member i inside)) (elements i inside)
    | table nested =>
      intro i inside
      obtain ⟨target, reference⟩ := elements i inside
      exact ⟨target, (refersTo_iff h (.table holds (member i inside)) rfl).mpr reference⟩

/-- The strings of a table that is in order are texts. -/
private theorem isText_of_fieldAt {holder : Nat}
    (fields : ∀ i f holder, w.schema.field? id i = some f →
      w.buffer.fieldPosition? position i = some holder →
        w.FieldAt f.type holder ∧ (w.through b').FieldAt f.type holder)
    (holds : w.buffer.Holds w.schema position id .string holder) {target length : Nat}
    (leads : w.buffer.target? holder = some target)
    (counted : w.buffer.nat? target offsetSize = some length) :
    b'.IsText (target + offsetSize) length := by
  suffices strings : w.RefersToString holder ∧ (w.through b').RefersToString holder from
    (refersToString_iff h holds strings.1).mp strings.2 target length leads counted
  generalize isString : FieldType.string = type at holds
  cases holds with
  | field found place =>
    have both := fields _ _ _ found place
    rw [← isString] at both
    exact both
  | table => cases isString
  | string inside member =>
    generalize isVector : FieldType.vector .string = type at inside
    cases inside with
    | string | table => cases isVector
    | field found place =>
      have holds : w.buffer.Holds w.schema position id _ _ := .field found place
      obtain ⟨good, good'⟩ := fields _ _ _ found place
      rw [← isVector] at good good' holds
      obtain ⟨target, length, reference, vector, elements⟩ := good
      obtain ⟨target', length', reference', vector', elements'⟩ := good'
      obtain ⟨i, inside, rfl⟩ :=
        (Buffer.mem_elementHolders reference.read vector.counted).mp member
      have same := ((refersTo_iff h holds rfl).mp reference').read
      obtain rfl : target = target' := Option.some.inj (reference.read.symm.trans same)
      have counts : b'.nat? target offsetSize = some length' := vector'.counted
      rw [h.vectorLength holds reference.read, vector.counted] at counts
      obtain rfl : length = length' := Option.some.inj counts
      exact ⟨elements i inside, elements' i inside⟩

/-- A table that is in order is in order in the other buffer exactly if its strings are still
texts. -/
theorem tableAt_iff_isText (table : w.TableAt position id) :
    (w.through b').TableAt position id ↔
      ∀ p n, w.buffer.Text w.schema position id p n → b'.IsText p n := by
  obtain ⟨known, vtable, vtableSize, size, v, fields⟩ := table
  constructor
  · intro given p n also
    obtain ⟨_, _, _, _, _, fields'⟩ := given
    obtain ⟨holds, leads, counted⟩ := also
    refine isText_of_fieldAt h ?_ holds leads counted
    intro i f holder found place
    have place' := (h.fieldPosition? found).trans place
    exact ⟨(fields i f holder found place).field, (fields' i f holder found place').field⟩
  · intro text
    refine ⟨known, vtable, vtableSize, size, ?_, ?_⟩
    · exact ⟨v.aligned, h.vtable?.trans v.read, v.vtableAligned,
        (h.vtableSize v.read).trans v.vtableCounted, v.even, v.header, h.size ▸ v.vtableInside,
        (h.tableSize v.read).trans v.counted, v.smallest, h.size ▸ v.inside⟩
    · intro i f holder found place'
      have place : w.buffer.fieldPosition? position i = some holder :=
        (h.fieldPosition? found).symm.trans place'
      have within := fields i f holder found place
      exact ⟨within.behind, within.within, within.aligned,
        fieldAt_of_text h (.field found place) within.field text⟩

end
end Walk
end FlatTable

import FlatTable.Proofs.Mutate.Changes

/-! The ways to change the same scalar: an element by its table or by its vector, and a field by its number
or by its entry in the vtable. -/
namespace FlatTable
open Layout

def MutableVector.IsRead (w : MutableVector) (t : TableView) (slot : Nat) : Prop :=
  ∃ u, t.vector? slot (.scalar w.type) = some u ∧ u.length = w.length ∧
    ∀ j, u.get? j = (w.get? j).map Item.scalar

/-! ### Where the vector of a field is -/

namespace MutableTable
variable {t : MutableTable} {i : Nat} {b' b'' : Buffer} {w : MutableVector} {type : ScalarType}

/-- The bytes that tell where the vector of a field is: the distance to the vtable, the size of the vtable
and its entry for the field, the reference and the length in front of the elements. -/
inductive Finds (t : MutableTable) (i : Nat) : Nat → Nat → Prop
  | table : Finds t i t.position offsetSize
  | vtable {vtable : Nat} (read : t.buffer.vtable? t.position = some vtable) :
      Finds t i vtable slotSize
  | entry {vtable : Nat} (read : t.buffer.vtable? t.position = some vtable) :
      Finds t i (vtable + slotOf i) slotSize
  | reference {holder : Nat} (place : t.fieldPosition? i = some holder) : Finds t i holder offsetSize
  | length {holder target : Nat} (place : t.fieldPosition? i = some holder)
      (leads : t.buffer.target? holder = some target) : Finds t i target offsetSize

structure SameSpan (t : MutableTable) (i : Nat) (b' : Buffer) : Prop where
  size : b'.size = t.buffer.size
  same : ∀ p n, t.Finds i p n → t.buffer.SameAt b' p n

theorem vectorOf?_eq_some_iff : t.vectorOf? i type = some w ↔ t.vector? i = some w ∧ w.type = type := by
  rw [vectorOf?, Option.filter_eq_some_iff, beq_iff_eq]

theorem buffer_of_vectorOf? (read : t.vectorOf? i type = some w) : w.buffer = t.buffer := by
  obtain ⟨_, _, _, _, _, _, _, _, _, _, _, _, _, _, rfl⟩ :=
    vector?_eq_some_iff.mp (vectorOf?_eq_some_iff.mp read).1
  rfl

/-- The number of a field tells its entry, so other places in the vtable are none. -/
theorem setSlot?_eq (t : MutableTable) (slot : Nat) (value : Value) : t.setSlot? slot value =
    if vtableHeader ≤ slot ∧ slot % slotSize = 0 then t.setField? (fieldOf slot) value else none := by
  rw [setSlot?, ← ite_not]
  exact if_congr (by rw [not_or, Nat.not_lt, not_not]) rfl rfl

theorem isRead_of_vectorOf? (read : t.vectorOf? i type = some w) : w.IsRead t.view (slotOf i) := by
  obtain ⟨_, _, scalar, holder, target, length, _, _, _, _, place, leads, counted, inside, rfl⟩ :=
    vector?_eq_some_iff.mp (vectorOf?_eq_some_iff.mp read).1
  refine ⟨⟨t.buffer, .scalar scalar, target + offsetSize, length⟩, ?_, rfl, fun j => ?_⟩
  · have place : t.view.fieldPosition? (slotOf i) = some holder := place
    have leads : t.view.buffer.target? holder = some target := leads
    have elements : t.buffer.elements? scalar.width target = some (length, target + offsetSize) := by
      simp only [Buffer.elements?, counted, Option.bind_eq_bind, Option.bind_some, if_pos inside]
    have elements : t.view.buffer.elements? scalar.width target = some (length, target + offsetSize) :=
      elements
    simp only [TableView.vector?, place, leads, ElementKind.width, Option.bind_eq_bind,
      Option.bind_some, elements]
    rfl
  · simp only [VectorView.get?, MutableVector.get?, Buffer.item?, ElementKind.width]
    split <;> rfl

namespace SameSpan

theorem fieldPosition? (h : t.SameSpan i b') :
    b'.fieldPosition? t.position i = t.buffer.fieldPosition? t.position i := by
  have back : b'.vtable? t.position = t.buffer.vtable? t.position := (h.same _ _ .table).vtable? h.size
  simp only [Buffer.fieldPosition?, Buffer.slotPosition?, back, Option.bind_eq_bind]
  split
  · rfl
  · apply Option.bind_congr
    intro vtable read
    rw [(h.same _ _ (.vtable read)).nat? h.size, (h.same _ _ (.entry read)).nat? h.size]

/-- The vector is found where it was. -/
theorem vectorOf? (h : t.SameSpan i b') (read : t.vectorOf? i type = some w) :
    MutableTable.vectorOf? { t with buffer := b' } i type = some { w with buffer := b' } := by
  obtain ⟨vector, same⟩ := vectorOf?_eq_some_iff.mp read
  obtain ⟨f, e, scalar, holder, target, length, found, live, isVector, element, place, leads, counted,
    inside, rfl⟩ := vector?_eq_some_iff.mp vector
  refine vectorOf?_eq_some_iff.mpr ⟨vector?_eq_some_iff.mpr ⟨f, e, scalar, holder, target, length, found,
    live, isVector, element, h.fieldPosition?.trans place, ?_, ?_, h.size.symm ▸ inside, rfl⟩, same⟩
  · exact ((h.same _ _ (.reference place)).target? h.size).trans leads
  · exact ((h.same _ _ (.length place leads)).nat? h.size).trans counted

/-- What is written apart from these bytes leaves the vector where it is. -/
theorem write {p : Nat} {bytes : List UInt8} (h : t.SameSpan i b') (write : b'.write? p bytes = some b'')
    (apart : ∀ q n, t.Finds i q n → p + bytes.length ≤ q ∨ q + n ≤ p) : t.SameSpan i b'' := by
  refine ⟨(Buffer.size_write? write).trans h.size, fun q n finds k low high => ?_⟩
  rw [Buffer.sameAt_of_write? write (apart q n finds) k low high]
  exact h.same q n finds k low high

end SameSpan
end MutableTable

/-! ### The same change in two ways -/

namespace Editing
variable {m : Editing} {n i j slot k : Nat} {t : MutableTable} {w : MutableVector} {type : ScalarType}
  {value : Value}

/-- The vector that is asked for is the next one, and there is none if it is refused. -/
theorem vector?_step_vector (m : Editing) (n i : Nat) (type : ScalarType) :
    (m.step (.vector n i type)).vector? m.vectors.length =
      (m.table? n).bind fun t => t.vectorOf? i type := by
  have next : (m.vectors ++ ((m.table? n).bind (·.vectorOf? i type)).toList)[m.vectors.length]? =
      (m.table? n).bind (·.vectorOf? i type) := by
    rw [List.getElem?_append_right (Nat.le_refl _), Nat.sub_self]
    cases (m.table? n).bind (·.vectorOf? i type) <;> rfl
  simp only [vector?, step, next]
  cases found : (m.table? n).bind (·.vectorOf? i type) with
  | none => rfl
  | some w =>
    obtain ⟨t, asked, read⟩ := Option.bind_eq_some_iff.mp found
    have same := (MutableTable.buffer_of_vectorOf? read).trans (buffer_of_table? asked)
    rw [Option.map_some, ← same]

theorem result?_element (m : Editing) (n i j : Nat) (value : Value) : m.result? (.element n i j value) =
    (m.step (.vector n i value.type)).result? (.item m.vectors.length j value) := by
  simp only [result?, vector?_step_vector]
  cases m.table? n with
  | none => rfl
  | some t =>
    rw [Option.bind_some, Option.bind_some, MutableTable.setElement?_eq_vectorOf?, Option.map_bind]
    rfl

theorem result?_slot (m : Editing) (n slot : Nat) (value : Value) : m.result? (.slot n slot value) =
    if vtableHeader ≤ slot ∧ slot % slotSize = 0 then m.result? (.field n (fieldOf slot) value)
    else none := by
  simp only [result?, MutableTable.setSlot?_eq]
  by_cases entry : vtableHeader ≤ slot ∧ slot % slotSize = 0
  · simp only [if_pos entry]
  · simp only [if_neg entry, Option.bind_fun_none]

/-! ### A vector in use -/

/-- A table and the vector of one of its fields have been asked for, and the vector is still there. -/
structure Holds (m : Editing) (n k i : Nat) (t : MutableTable) (w : MutableVector) : Prop where
  table : m.table? n = some { t with buffer := m.session.buffer }
  vector : m.vector? k = some { w with buffer := m.session.buffer }
  span : t.SameSpan i m.session.buffer

theorem holds_step_vector (asked : m.table? n = some t) (read : t.vectorOf? i type = some w) :
    (m.step (.vector n i type)).Holds n m.vectors.length i t w := by
  have buffer := buffer_of_table? asked
  refine ⟨?_, ?_, buffer ▸ rfl, fun p n _ => ?_⟩
  · change m.table? n = some { t with buffer := m.session.buffer }
    rw [asked, ← buffer]
  · rw [vector?_step_vector, asked, Option.bind_some, read]
    change some w = some { w with buffer := m.session.buffer }
    rw [← buffer, ← MutableTable.buffer_of_vectorOf? read]
  · intro k _ _
    rw [buffer]
    rfl

namespace Holds
variable (h : m.Holds n k i t w) (read : t.vectorOf? i type = some w)
include h read

/-- An element is replaced by its table as by its vector. -/
theorem step_item : m.step (.item k j value) = m.step (.element n i j value) := by
  have found := h.span.vectorOf? read
  have same : m.result? (.item k j value) = m.result? (.element n i j value) := by
    simp only [result?, h.table, h.vector, Option.bind_some, MutableTable.setElement?_eq_vectorOf?]
    -- a value of another type is refused either way
    by_cases asked : value.type = type
    · rw [asked, found, Option.bind_some]
    · obtain ⟨vector, kind⟩ := MutableTable.vectorOf?_eq_some_iff.mp found
      have other : MutableTable.vectorOf? { t with buffer := m.session.buffer } i value.type = none := by
        rw [MutableTable.vectorOf?, vector, Option.filter_some, if_neg]
        simpa only [beq_iff_eq, ← kind] using Ne.symm asked
      rw [other, Option.bind_none, MutableVector.set?, if_neg fun allowed => asked (allowed.1.trans kind)]
      rfl
  exact congrArg m.write same

/-- A write that does not reach the bytes that tell where the vector is leaves it in use. -/
theorem step (apart : value.type = type → j < w.length → ∀ p size, t.Finds i p size →
      w.start + j * type.width + type.width ≤ p ∨ p + size ≤ w.start + j * type.width) :
    (m.step (.item k j value)).Holds n k i t w := by
  have table (result : Option Buffer) :
      (m.write result).table? n = some { t with buffer := (m.write result).session.buffer } := by
    have asked := congrArg (Option.map fun t' : MutableTable =>
      { t' with buffer := (m.write result).session.buffer }) h.table
    simpa [table?, write, Option.map_map, Function.comp_def] using asked
  have vector (result : Option Buffer) :
      (m.write result).vector? k = some { w with buffer := (m.write result).session.buffer } := by
    have asked := congrArg (Option.map fun w' : MutableVector =>
      { w' with buffer := (m.write result).session.buffer }) h.vector
    simpa [vector?, write, Option.map_map, Function.comp_def] using asked
  refine ⟨table _, vector _, ?_⟩
  cases result : m.result? (.item k j value) with
  | none =>
    rw [buffer_step, result]
    exact h.span
  | some b' =>
    obtain ⟨w', set, rfl⟩ := Option.map_eq_some_iff.mp result
    rw [h.vector, Option.bind_some] at set
    obtain ⟨kind, inside, b', write, rfl⟩ := MutableVector.set?_eq_some_iff.mp set
    obtain ⟨-, rfl⟩ := MutableTable.vectorOf?_eq_some_iff.mp read
    rw [buffer_step, result]
    refine h.span.write write fun p size finds => ?_
    rw [value.length_bytes, kind]
    exact apart kind inside p size finds

/-- A run of such writes gives the same by the table as by the vector, and leaves the vector in use. -/
theorem run_items (writes : List (Nat × Value)) (apart : ∀ x ∈ writes, x.2.type = type →
      x.1 < w.length → ∀ p size, t.Finds i p size →
        w.start + x.1 * type.width + type.width ≤ p ∨ p + size ≤ w.start + x.1 * type.width) :
    m.run (writes.map fun x => .item k x.1 x.2) = m.run (writes.map fun x => .element n i x.1 x.2) ∧
      (m.run (writes.map fun x => .item k x.1 x.2)).Holds n k i t w := by
  induction writes generalizing m with
  | nil => exact ⟨rfl, h⟩
  | cons x writes ih =>
    have first := h.step read (apart x List.mem_cons_self)
    obtain ⟨same, held⟩ := ih first fun x' member => apart x' (List.mem_cons_of_mem x member)
    refine ⟨?_, held⟩
    rw [List.map_cons, List.map_cons, run, run, List.foldl_cons, List.foldl_cons, ← h.step_item read]
    exact same

end Holds

/-- The entry points agree. An element is replaced by its table as by the vector that has been asked for with
the type of the value, with the same result and the same bytes. As long as no write reaches the bytes that
tell where the vector is, this holds for any number of writes by one vector, and the vector has the length
and the elements that are read in the new bytes. A field is replaced by its place in the vtable as by its
number, and there are no fields at other places. -/
theorem entries_agree (m : Editing) :
    (∀ n i j value,
      m.result? (.element n i j value) =
          (m.step (.vector n i value.type)).result? (.item m.vectors.length j value) ∧
        (m.step (.element n i j value)).session =
          (m.run [.vector n i value.type, .item m.vectors.length j value]).session) ∧
    (∀ n i type t w, m.table? n = some t → t.vectorOf? i type = some w →
      ∀ writes : List (Nat × Value),
        (∀ x ∈ writes, x.2.type = type → x.1 < w.length → ∀ p size, t.Finds i p size →
          w.start + x.1 * type.width + type.width ≤ p ∨ p + size ≤ w.start + x.1 * type.width) →
        let asked := m.step (.vector n i type)
        let after := asked.run (writes.map fun x => .item m.vectors.length x.1 x.2)
        after = asked.run (writes.map fun x => .element n i x.1 x.2) ∧
          ∃ t' w', after.table? n = some t' ∧ after.vector? m.vectors.length = some w' ∧
            w'.length = w.length ∧ w'.IsRead t'.view (slotOf i)) ∧
    ∀ n slot value,
      (m.result? (.slot n slot value) =
        if vtableHeader ≤ slot ∧ slot % slotSize = 0 then m.result? (.field n (fieldOf slot) value)
        else none) ∧
      m.step (.slot n slot value) =
        if vtableHeader ≤ slot ∧ slot % slotSize = 0 then m.step (.field n (fieldOf slot) value)
        else m := by
  refine ⟨fun n i j value => ⟨m.result?_element n i j value, ?_⟩, ?_,
    fun n slot value => ⟨m.result?_slot n slot value, ?_⟩⟩
  · exact congrArg m.session.update (m.result?_element n i j value)
  · intro n i type t w asked read writes apart
    obtain ⟨same, held⟩ := (holds_step_vector asked read).run_items read writes apart
    exact ⟨same, _, _, held.table, held.vector, rfl,
      MutableTable.isRead_of_vectorOf? (held.span.vectorOf? read)⟩
  · have step := congrArg m.write (m.result?_slot n slot value)
    rw [apply_ite m.write] at step
    exact step

end Editing

namespace Session

def rowVerifier : Verifier := .standard {
  nameSpace := ""
  attributes := []
  enums := #[]
  structs := #[]
  tables := #[⟨"Row", #[.plain "cells" (.vector (.scalar .ushort))]⟩]
  root := some 0 }

def row : Buffer := #[
  12, 0, 0, 0, 6, 0, 8, 0, 4, 0, 0, 0, 8, 0, 0, 0, 4, 0, 0, 0, 2, 0, 0, 0, 1, 0, 2, 0]

def rowTable : MutableTable := ⟨rowVerifier.schema, row, 12, 0⟩

/-- What tells where the cells are is in front of them. -/
private theorem row_finds {p size : Nat} (finds : rowTable.Finds 0 p size) : p + size ≤ 24 := by
  cases finds with
  | table => decide
  | vtable read | entry read =>
    obtain rfl := Option.some.inj (read.symm.trans (rfl : row.vtable? 12 = some 4))
    decide
  | reference place =>
    obtain rfl := Option.some.inj (place.symm.trans (rfl : rowTable.fieldPosition? 0 = some 16))
    decide
  | length place leads =>
    obtain rfl := Option.some.inj (place.symm.trans (rfl : rowTable.fieldPosition? 0 = some 16))
    obtain rfl := Option.some.inj (leads.symm.trans (rfl : row.target? 16 = some 20))
    decide

def rowSession : Session := ⟨rowVerifier, row, ⟨12, 0⟩, Crc32.checksum row⟩

/-- The cells are set from the last to the first, with one that is not there in between. -/
theorem row_set : start rowVerifier row = .ok rowSession ∧
    let asked := (Editing.start rowSession).run [.root, .vector 0 0 .ushort]
    let after := asked.run [.item 0 1 (ScalarType.ushort.value 9),
      .item 0 2 (ScalarType.ushort.value 9), .item 0 0 (ScalarType.ushort.value 258)]
    after = asked.run [.element 0 0 1 (ScalarType.ushort.value 9),
        .element 0 0 2 (ScalarType.ushort.value 9), .element 0 0 0 (ScalarType.ushort.value 258)] ∧
      after.session.buffer = #[12, 0, 0, 0, 6, 0, 8, 0, 4, 0, 0, 0, 8, 0, 0, 0, 4, 0, 0, 0, 2, 0, 0, 0,
        2, 1, 9, 0] ∧
      ∃ t w, after.table? 0 = some t ∧ after.vector? 0 = some w ∧ w.length = 2 ∧
        w.IsRead t.view (slotOf 0) := by
  obtain ⟨same, read⟩ :=
    (Editing.entries_agree ((Editing.start rowSession).run [.root])).2.1 0 0 .ushort rowTable
      ⟨row, .ushort, 24, 2⟩ rfl rfl [(1, ScalarType.ushort.value 9),
        (2, ScalarType.ushort.value 9), (0, ScalarType.ushort.value 258)]
      fun x _ _ _ p size finds => .inr ((row_finds finds).trans (Nat.le_add_right _ _))
  exact ⟨rfl, same, rfl, read⟩

end Session
end FlatTable

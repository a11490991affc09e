import FlatTable.Proofs.Builder.Finished
import FlatTable.Proofs.Builder.Runs
import FlatTable.Proofs.View.Readable

/-! The objects of a run in the finished buffer, read by position. -/
namespace FlatTable
open Layout

theorem Text.decodeUtf8?_encodeUtf8 (s : String) : decodeUtf8? (encodeUtf8 s) = some s := by
  have same : (⟨(encodeUtf8 s).toArray⟩ : ByteArray) = s.toByteArray := rfl
  rw [decodeUtf8?, same, String.fromUTF8?, dif_pos s.isValidUTF8]
  rfl

namespace Builder
variable {b : Builder} {rev : Nat}

structure Built (s : Schema) (h : History) (b : Builder) : Prop where
  sound : b.Sound
  whole : b.minAlign ∣ b.used.bytes.length
  aligned : offsetSize ≤ b.minAlign
  laid : ∀ c ∈ h, b.Laid c
  fits : ∀ c ∈ h, ∀ a, c.content = .table a → a.Fits s
  grounded : h.Grounded

/-- Every object lies in front of the padding at the end. -/
theorem Laid.trailingPad_lt {c : Creation} (h : b.Laid c) :
    b.trailingPad < c.rev ∧ c.rev ≤ b.used.bytes.length := by
  have counted {n : Nat} (held : b.Held c.rev (Bytes.encode offsetSize n)) :
      b.trailingPad < c.rev ∧ c.rev ≤ b.used.bytes.length := by
    have before := held.before
    rw [Bytes.length_encode] at before
    simp only [offsetSize] at before
    exact ⟨by omega, held.le⟩
  obtain ⟨rev, content⟩ := c
  cases content with
  | string s => exact counted (StringLaid.held h).left
  | scalars t items => exact counted (ScalarsLaid.counted h)
  | strings items | tables items => exact counted (ReferencesLaid.counted h)
  | table a =>
    obtain ⟨start, slots, laid⟩ := h
    exact counted laid.back

/-- A number that is no larger than a buffer is read back. -/
private theorem Held.nat?_word {n : Nat} (held : b.Held rev (Bytes.encode offsetSize n))
    (small : n ≤ maxBufferSize) :
    b.finished.data.nat? (b.positionOf rev) offsetSize = some n :=
  held.nat? (by simp only [maxBufferSize] at small; simp only [offsetSize]; omega)

namespace Built
variable {s : Schema} {h : History} (built : b.Built s h)
include built

/-- Alignments of a buffer that were asked for hold for positions as they hold for distances. -/
theorem aligned_positionOf {a : Nat} (divides : a ∣ 8) (asked : a ≤ b.minAlign) (even : a ∣ rev) :
    a ∣ b.positionOf rev :=
  dvd_positionOf (Nat.dvd_trans (dvd_of_le_of_dvd_eight divides built.sound.minAlign asked)
    built.whole) even

theorem word_dvd (even : offsetSize ∣ rev) : offsetSize ∣ b.positionOf rev :=
  built.aligned_positionOf (by decide) built.aligned even

end Built

/-! ### Strings -/

section
variable {text : String}

theorem StringLaid.counted (h : b.StringLaid rev text) (sound : b.Sound) :
    b.finished.data.nat? (b.positionOf rev) offsetSize = some (Text.encodeUtf8 text).length := by
  have before := h.held.before
  have inFront := h.held.le
  have small := sound.small
  simp only [List.length_append, Bytes.length_encode] at before
  exact h.held.left.nat?_word (by omega)

theorem StringLaid.read (h : b.StringLaid rev text) :
    b.finished.data.slice? (b.positionOf rev + offsetSize) (Text.encodeUtf8 text).length =
      some (Text.encodeUtf8 text) := by
  have before := h.held.before
  simp only [List.length_append, Bytes.length_encode] at before
  have body := h.held.right.left.slice?
  rwa [Bytes.length_encode, positionOf_sub (by omega) h.held.le] at body

theorem StringLaid.terminated (h : b.StringLaid rev text) :
    b.finished.data[b.positionOf rev + offsetSize + (Text.encodeUtf8 text).length]? = some 0 := by
  have before := h.held.before
  have inFront := h.held.le
  simp only [List.length_append, Bytes.length_encode] at before
  have last := h.held.right.right.slice?
  rw [Bytes.length_encode, positionOf_sub (by omega) (by omega),
    positionOf_sub (by omega) inFront] at last
  exact Buffer.getElem?_of_slice? last

/-- The text is read through every reference to the string. -/
theorem StringLaid.string? {holder : Nat} (h : b.StringLaid rev text) (sound : b.Sound)
    (refers : b.Refers holder rev) :
    b.finished.data.string? (b.positionOf holder) = some text := by
  simp only [Buffer.string?, refers.target? sound, h.counted sound, h.read,
    Text.decodeUtf8?_encodeUtf8, Option.bind_eq_bind, Option.bind_some]

end

/-! ### Vectors -/

/-- All elements of a vector are in front of the padding at the end. -/
private theorem elements_inside {n m width : Nat} (positive : 0 < width)
    (counted : b.Held rev (Bytes.encode offsetSize m))
    (item : ∀ i < n, ∃ bytes, bytes.length = width ∧
      b.Held (rev - offsetSize - i * width) bytes) :
    b.trailingPad + offsetSize + n * width ≤ rev ∧ n ≤ rev := by
  have before := counted.before
  rw [Bytes.length_encode] at before
  cases n with
  | zero => exact ⟨by omega, Nat.zero_le _⟩
  | succ n =>
    obtain ⟨bytes, length, last⟩ := item n (Nat.lt_succ_self n)
    have inside := last.before
    have least : n ≤ n * width := Nat.le_mul_of_pos_right n positive
    rw [length] at inside
    rw [Nat.succ_mul]
    exact ⟨by omega, by omega⟩

private theorem positionOf_element {i width : Nat} (inFront : rev ≤ b.used.bytes.length)
    (inside : offsetSize + i * width ≤ rev) :
    b.positionOf (rev - offsetSize - i * width) =
      b.positionOf rev + offsetSize + i * width := by
  rw [Nat.sub_sub, positionOf_sub inside inFront, Nat.add_assoc]

section
variable {t : ScalarType} {items : List Value} (h : b.ScalarsLaid rev t items) (sound : b.Sound)
include h

private theorem ScalarsLaid.bounds :
    b.trailingPad + offsetSize + items.length * t.width ≤ rev ∧ items.length ≤ rev := by
  apply elements_inside t.width_pos h.counted
  intro i inside
  have found := List.getElem?_eq_getElem inside
  refine ⟨_, ?_, h.item i _ found⟩
  rw [Value.length_bytes, h.typed _ (List.mem_of_getElem? found)]

theorem ScalarsLaid.inside :
    b.positionOf rev + offsetSize + items.length * t.width ≤ b.finished.data.size := by
  have bounds := h.bounds
  have inFront := h.counted.le
  rw [size_data]
  simp only [positionOf]
  omega

include sound in
theorem ScalarsLaid.nat? :
    b.finished.data.nat? (b.positionOf rev) offsetSize = some items.length := by
  have bounds := h.bounds
  have inFront := h.counted.le
  have small := sound.small
  exact h.counted.nat?_word (by omega)

theorem ScalarsLaid.value? {i : Nat} {v : Value} (found : items[i]? = some v) :
    b.finished.data.value? t (b.positionOf rev + offsetSize + i * t.width) = some v := by
  have type := h.typed v (List.mem_of_getElem? found)
  have inside : i < items.length := (List.getElem?_eq_some_iff.mp found).1
  have upTo : i * t.width ≤ items.length * t.width := Nat.mul_le_mul_right _ (Nat.le_of_lt inside)
  have bounds := h.bounds
  rw [← positionOf_element h.counted.le (by omega), ← type]
  exact (type ▸ h.item i v found).value?

end

section
variable {targets : List Nat} (h : b.ReferencesLaid rev targets) (sound : b.Sound)
include h

private theorem ReferencesLaid.bounds :
    b.trailingPad + offsetSize + targets.length * offsetSize ≤ rev ∧ targets.length ≤ rev := by
  apply elements_inside (by decide) h.counted
  intro i inside
  have found := List.getElem?_eq_getElem inside
  exact ⟨_, Bytes.length_encode _ _, (h.refers i _ found).held⟩

theorem ReferencesLaid.inside :
    b.positionOf rev + offsetSize + targets.length * offsetSize ≤ b.finished.data.size := by
  have bounds := h.bounds
  have inFront := h.counted.le
  rw [size_data]
  simp only [positionOf]
  omega

include sound in
theorem ReferencesLaid.nat? :
    b.finished.data.nat? (b.positionOf rev) offsetSize = some targets.length := by
  have bounds := h.bounds
  have inFront := h.counted.le
  have small := sound.small
  exact h.counted.nat?_word (by omega)

/-- An element of a vector of references, held where it is read. -/
theorem ReferencesLaid.element {i target : Nat} (found : targets[i]? = some target) :
    b.Refers (rev - offsetSize - i * offsetSize) target ∧
      b.positionOf (rev - offsetSize - i * offsetSize) =
        b.positionOf rev + offsetSize + i * offsetSize := by
  have inside : i < targets.length := (List.getElem?_eq_some_iff.mp found).1
  have bounds := h.bounds
  have upTo : i * offsetSize ≤ targets.length * offsetSize :=
    Nat.mul_le_mul_right _ (Nat.le_of_lt inside)
  exact ⟨h.refers i target found, positionOf_element h.counted.le (by omega)⟩

end

/-! ### Tables -/

private theorem integer_value_int {n : Nat} (small : n < 2 ^ 31) :
    (ScalarType.int.value n).integer = n := by
  have fits : n < ScalarType.int.patterns := Nat.lt_of_lt_of_le small (by decide)
  have positive : n.testBit 31 = false := Nat.testBit_lt_two_pow small
  simp [Value.integer, ScalarType.value, ScalarType.normalize_of_lt fits, ScalarType.width,
    positive]

section
variable {object start : Nat} {slots : List Nat} (h : b.TableFramed object start slots)
include h

private theorem TableFramed.inFront :
    object + (slots.length + 2) * slotSize ≤ b.used.bytes.length := h.vtable.le

/-- The vtable ends where the table begins. -/
theorem TableFramed.vtable? : b.finished.data.vtable? (b.positionOf object) =
    some (b.positionOf (object + (slots.length + 2) * slotSize)) := by
  have few := h.few
  have inFront := h.inFront
  simp only [vtableHeader, slotSize, maxInline] at few inFront
  have read := h.back.nat? (by simp only [slotSize, offsetSize]; omega)
  have value : b.finished.data.value? .int (b.positionOf object) =
      some (ScalarType.int.value ((slots.length + 2) * slotSize)) := by
    rw [Buffer.value?, show ScalarType.int.width = offsetSize from rfl, read, Option.map_some]
  have back := integer_value_int (show (slots.length + 2) * slotSize < 2 ^ 31 by
    simp only [slotSize]; omega)
  rw [Buffer.vtable?, value, Option.bind_some, back, if_pos]
  · simp only [positionOf, slotSize, Option.some.injEq]
    omega
  · simp only [positionOf, slotSize]
    omega

/-- What the entries of the vtable read as. -/
theorem TableFramed.entry {j n : Nat} (fits : n ≤ maxInline)
    (found : ((vtableHeader + slots.length * slotSize) :: (object - start) :: slots)[j]? = some n) :
    b.finished.data.nat? (b.positionOf (object + (slots.length + 2) * slotSize) + j * slotSize)
      slotSize = some n := by
  have inFront := h.inFront
  have inside : j < slots.length + 2 := (List.getElem?_eq_some_iff.mp found).1
  have held := h.vtable.item (fun n _ => Bytes.length_encode slotSize n) found
  have upTo : j * slotSize ≤ (slots.length + 2) * slotSize :=
    Nat.mul_le_mul_right _ (Nat.le_of_lt inside)
  rw [← positionOf_sub (by omega) inFront]
  exact held.nat? (by simp only [maxInline] at fits; simp only [slotSize]; omega)

theorem TableFramed.vtableSize : b.finished.data.nat?
    (b.positionOf (object + (slots.length + 2) * slotSize)) slotSize =
      some (vtableHeader + slots.length * slotSize) := h.entry (j := 0) h.few rfl

theorem TableFramed.size : b.finished.data.nat?
    (b.positionOf (object + (slots.length + 2) * slotSize) + slotSize) slotSize =
      some (object - start) := by
  have read := h.entry (j := 1) h.small rfl
  rwa [Nat.one_mul] at read

end

section
variable {object start : Nat} {a : TableArgs} {slots : List Nat}
  (h : b.TableLaid object a start slots)
include h

private theorem TableLaid.inFront :
    object + (slots.length + 2) * slotSize ≤ b.used.bytes.length := h.vtable.le

theorem TableLaid.vtable? : b.finished.data.vtable? (b.positionOf object) =
    some (b.positionOf (object + (slots.length + 2) * slotSize)) := h.framed.vtable?

/-- No entry of the vtable is greater than the table. -/
private theorem TableLaid.slot_le (i : Nat) : slots[i]?.getD 0 ≤ object - start := by
  by_cases set : ∃ x, a.settings[i]? = some (some x)
  · obtain ⟨x, set⟩ := set
    rcases h.stored i x set with ⟨rev, f, slot, _, _, _, laid⟩ | ⟨zero, _⟩
    · have := laid.inside
      rw [slot, Option.getD_some]
      omega
    · rw [zero]
      exact Nat.zero_le _
  · rw [h.missing i fun x found => set ⟨x, found⟩]
    exact Nat.zero_le _

/-- What the vtable's two sizes and its entries read as. -/
theorem TableLaid.entry {j n : Nat}
    (found : ((vtableHeader + slots.length * slotSize) :: (object - start) :: slots)[j]? = some n) :
    b.finished.data.nat? (b.positionOf (object + (slots.length + 2) * slotSize) + j * slotSize)
      slotSize = some n := by
  have few := h.few
  have small := h.small
  refine h.framed.entry ?_ found
  rcases j with _ | _ | i
  · simp only [List.getElem?_cons_zero, Option.some.injEq] at found
    omega
  · simp only [List.getElem?_cons_succ, List.getElem?_cons_zero, Option.some.injEq] at found
    omega
  · simp only [List.getElem?_cons_succ] at found
    have bound := h.slot_le i
    rw [found, Option.getD_some] at bound
    omega

theorem TableLaid.vtableSize : b.finished.data.nat?
    (b.positionOf (object + (slots.length + 2) * slotSize)) slotSize =
      some (vtableHeader + slots.length * slotSize) := h.framed.vtableSize

theorem TableLaid.size : b.finished.data.nat?
    (b.positionOf (object + (slots.length + 2) * slotSize) + slotSize) slotSize =
      some (object - start) := h.framed.size

/-- A field lies where its entry says, and is absent if that is zero or if there is none. -/
private theorem TableLaid.fieldPosition?_eq (i : Nat) :
    b.finished.data.fieldPosition? (b.positionOf object) i =
      if slots[i]?.getD 0 = 0 then none else some (b.positionOf object + slots[i]?.getD 0) := by
  have first : ¬ slotOf i < vtableHeader := by
    simp only [slotOf]
    omega
  simp only [Buffer.fieldPosition?, Buffer.slotPosition?, if_neg first, h.vtable?, h.vtableSize,
    Option.bind_eq_bind, Option.bind_some]
  by_cases inside : i < slots.length
  · have found := List.getElem?_eq_getElem inside
    have known : slotOf i + slotSize ≤ vtableHeader + slots.length * slotSize := by
      simp only [slotOf, slotSize]
      omega
    have place : slotOf i = (i + 2) * slotSize := by
      simp only [slotOf, vtableHeader, slotSize]
      omega
    have behindSizes : ((vtableHeader + slots.length * slotSize) :: (object - start) ::
        slots)[i + 2]? = some slots[i] := by
      rw [List.getElem?_cons_succ, List.getElem?_cons_succ, found]
    have entry := h.entry behindSizes
    rw [if_pos known, place, entry, Option.bind_some, found, Option.getD_some]
  · have unknown : ¬ slotOf i + slotSize ≤ vtableHeader + slots.length * slotSize := by
      simp only [slotOf, slotSize]
      omega
    rw [if_neg unknown, List.getElem?_eq_none (Nat.le_of_not_lt inside)]
    rfl

/-- Of two fields that are stored the one with the smaller number comes first. -/
theorem TableLaid.place_before {i j p q : Nat} {f : FieldDef} (before : i < j)
    (field : a.schema.field? a.table i = some f)
    (place : b.finished.data.fieldPosition? (b.positionOf object) i = some p)
    (place' : b.finished.data.fieldPosition? (b.positionOf object) j = some q) :
    p + a.schema.inlineWidth f.type ≤ q := by
  rw [h.fieldPosition?_eq] at place place'
  split at place
  · cases place
  · rename_i stored
    split at place'
    · cases place'
    · rename_i stored'
      have entry {k : Nat} (stored : ¬ slots[k]?.getD 0 = 0) :
          slots[k]? = some (slots[k]?.getD 0) := by
        cases found : slots[k]? with
        | none => exact absurd (by rw [found]; rfl) stored
        | some d => rfl
      have ordered := h.ordered i j _ _ f before (entry stored) (entry stored') stored stored' field
      have first := Option.some.inj place
      have second := Option.some.inj place'
      omega

/-- A field without an entry is absent. -/
theorem TableLaid.fieldPosition?_of_zero {i : Nat} (zero : slots[i]?.getD 0 = 0) :
    b.finished.data.fieldPosition? (b.positionOf object) i = none := by
  rw [h.fieldPosition?_eq, zero, if_pos rfl]

/-- A field that was not set is absent. -/
theorem TableLaid.fieldPosition?_of_unset {i : Nat}
    (unset : ∀ x, a.settings[i]? ≠ some (some x)) :
    b.finished.data.fieldPosition? (b.positionOf object) i = none :=
  h.fieldPosition?_of_zero (h.missing i unset)

/-- A field that was set is where it was stored, or is absent because it is the default. -/
theorem TableLaid.fieldPosition?_of_set {i : Nat} {x : Setting}
    (set : a.settings[i]? = some (some x)) :
    (∃ rev f, a.schema.field? a.table i = some f ∧ x.Fits a.schema f.type ∧
      rev + offsetSize ≤ object ∧ b.FieldLaid a.schema f.type start rev x ∧
        b.finished.data.fieldPosition? (b.positionOf object) i = some (b.positionOf rev)) ∨
      (Omitted a i x ∧ b.finished.data.fieldPosition? (b.positionOf object) i = none) := by
  rcases h.stored i x set with ⟨rev, f, slot, inside, field, fits, laid⟩ | ⟨zero, omitted⟩
  · have inFront := h.inFront
    simp only [offsetSize] at inside
    refine .inl ⟨rev, f, field, fits, inside, laid, ?_⟩
    rw [h.fieldPosition?_eq, slot, Option.getD_some, if_neg (by omega)]
    simp only [positionOf, Option.some.injEq]
    omega
  · exact .inr ⟨omitted, h.fieldPosition?_of_zero zero⟩

/-- Where every field that is set has an entry, each is where it was stored. -/
theorem TableLaid.fieldPosition?_of_full (full : Full a slots) {i : Nat} {x : Setting}
    (set : a.settings[i]? = some (some x)) :
    ∃ rev f, a.schema.field? a.table i = some f ∧ x.Fits a.schema f.type ∧
      b.FieldLaid a.schema f.type start rev x ∧
        b.finished.data.fieldPosition? (b.positionOf object) i = some (b.positionOf rev) := by
  rcases h.fieldPosition?_of_set set with ⟨rev, f, field, fits, _, laid, place⟩ | ⟨_, place⟩
  · exact ⟨rev, f, field, fits, laid, place⟩
  · rw [h.fieldPosition?_eq, if_neg (full i x set)] at place
    cases place

end

end Builder
end FlatTable

import FlatTable.Scalar.Value
import Mathlib.Algebra.Ring.Nat

/-! Laws of numbers in bytes and of reads: what is read is what stands between a front and a back. -/
namespace FlatTable

namespace Bytes

/-- Bytes of a sufficient width tell the number. -/
theorem decode_encode {width n : Nat} (h : n < 256 ^ width) : decode (encode width n) = n := by
  induction width generalizing n with
  | zero =>
    simp only [Nat.pow_zero] at h
    simp only [encode, decode]
    omega
  | succ width ih =>
    have rest : n / 256 < 256 ^ width := by
      rw [Nat.pow_succ] at h
      omega
    simp only [encode, decode, ih rest, UInt8.toNat_ofNat']
    omega

end Bytes

namespace Buffer
variable {b : Buffer} {pos length : Nat} {bs : List UInt8}

/-- A slice is what stands behind `pos` bytes. -/
theorem slice?_eq_some_iff :
    b.slice? pos length = some bs ↔
      bs.length = length ∧
        ∃ front back, b.toList = front ++ (bs ++ back) ∧ front.length = pos := by
  unfold slice?
  constructor
  · intro h
    split at h
    case isTrue inside =>
      obtain rfl := Option.some.inj h
      refine ⟨by simp; omega, b.toList.take pos, (b.toList.drop pos).drop length, ?_, ?_⟩
      · simp only [Array.toList_extract, List.extract_eq_take_drop, Nat.add_sub_cancel_left,
          List.take_append_drop]
      · simp
        omega
    case isFalse => cases h
  · intro given
    obtain ⟨rfl, front, back, split, rfl⟩ := given
    have size : b.size = front.length + (bs.length + back.length) := by
      rw [← Array.length_toList, split]
      simp
    rw [if_pos (by omega)]
    simp [split]

theorem slice?_of_le (h : pos + length ≤ b.size) :
    ∃ bs, b.slice? pos length = some bs ∧ bs.length = length :=
  ⟨_, if_pos h, by simp; omega⟩

theorem le_of_slice? (h : b.slice? pos length = some bs) : pos + length ≤ b.size := by
  unfold slice? at h
  split at h
  · assumption
  · cases h

theorem getElem?_of_slice? {x : UInt8} (h : b.slice? pos 1 = some [x]) : b[pos]? = some x := by
  obtain ⟨_, front, back, split, rfl⟩ := slice?_eq_some_iff.mp h
  rw [← Array.getElem?_toList, split, List.getElem?_append_right (Nat.le_refl _), Nat.sub_self]
  rfl

theorem nat?_eq_some_iff {width n : Nat} :
    b.nat? pos width = some n ↔ ∃ bs, b.slice? pos width = some bs ∧ Bytes.decode bs = n :=
  Option.map_eq_some_iff

/-- A number can be read wherever there are bytes. -/
theorem nat?_of_le {width : Nat} (h : pos + width ≤ b.size) : ∃ n, b.nat? pos width = some n := by
  obtain ⟨bs, read, _⟩ := slice?_of_le h
  exact ⟨_, nat?_eq_some_iff.mpr ⟨bs, read, rfl⟩⟩

/-- A slice that holds a number's bytes reads as the number. -/
theorem nat?_of_slice? {width n : Nat} (h : b.slice? pos width = some (Bytes.encode width n))
    (fits : n < 256 ^ width) : b.nat? pos width = some n :=
  nat?_eq_some_iff.mpr ⟨_, h, Bytes.decode_encode fits⟩

end Buffer

namespace ScalarType

theorem width_pos (t : ScalarType) : 0 < t.width := by cases t <;> decide

theorem width_dvd_eight (t : ScalarType) : t.width ∣ 8 := by cases t <;> decide

theorem width_le_eight (t : ScalarType) : t.width ≤ 8 := by cases t <;> decide

theorem patterns_le (t : ScalarType) : t.patterns ≤ 256 ^ t.width := by cases t <;> decide

theorem normalize_of_lt {t : ScalarType} {n : Nat} (h : n < t.patterns) : t.normalize n = n := by
  cases t with
  | bool =>
    simp only [patterns] at h
    simp only [normalize]
    omega
  | _ => exact Nat.mod_eq_of_lt h

end ScalarType

namespace Value

theorem type_value_pattern (v : Value) : v.type.value v.pattern = v := by
  cases v with
  | mk type pattern fits => simp [ScalarType.value, ScalarType.normalize_of_lt fits]

end Value

namespace Buffer

/-- The bytes of a value read as the value. -/
theorem value?_of_slice? {b : Buffer} {pos : Nat} {v : Value}
    (h : b.slice? pos v.type.width = some v.bytes) : b.value? v.type pos = some v := by
  have read : b.nat? pos v.type.width = some v.pattern :=
    nat?_of_slice? h (Nat.lt_of_lt_of_le v.fits v.type.patterns_le)
  rw [value?, read, Option.map_some, v.type_value_pattern]

/-- A value can be read wherever there are bytes. -/
theorem value?_of_le {b : Buffer} {t : ScalarType} {pos : Nat} (h : pos + t.width ≤ b.size) :
    ∃ v, b.value? t pos = some v ∧ v.type = t := by
  obtain ⟨n, read⟩ := nat?_of_le h
  exact ⟨t.value n, by rw [value?, read, Option.map_some], rfl⟩

end Buffer
end FlatTable

import FlatTable.Proofs.Scalar.Exact
import Mathlib.Algebra.Order.Field.Basic

/-! Rounding as a function of the number alone: integers and patterns of any format that denote the same number,
other than zero, are brought to the same pattern. -/
namespace FlatTable

namespace Ieee.Format
variable {f : Format} {bits : Nat} {x : ℚ}

def nearest (f : Format) (x : ℚ) : Nat := f.withSign (x < 0) (f.roundRatio x.num.natAbs x.den)

/-- A quotient that is the magnitude of a number is rounded as the number is. -/
private theorem withSign_roundRatio (f : Format) {num den : Nat} {negative : Bool} (positive : 0 < den)
    (sign : negative = decide (x < 0)) (value : (num : ℚ) / den = |x|) :
    f.withSign negative (f.roundRatio num den) = f.nearest x := by
  have lowest : (x.num.natAbs : ℚ) / x.den = |x| := by
    rw [Nat.cast_natAbs, Int.cast_abs, ← Nat.abs_cast x.den, ← abs_div, Rat.num_div_den]
  rw [nearest, sign, roundRatio_congr f positive x.pos (value.trans lowest.symm)]

theorem ofInt_eq_nearest (f : Format) (i : Int) : f.ofInt i = f.nearest i := by
  refine withSign_roundRatio f Nat.one_pos ?_ ?_
  · simp only [Int.cast_lt_zero]
  · rw [Nat.cast_one, div_one, Nat.cast_natAbs, Int.cast_abs]

/-- A pattern denotes its magnitude with its sign. -/
private theorem of_number? (denotes : f.number? bits = some x) (nonzero : x ≠ 0) :
    f.isFinite bits ∧ (f.significand bits : ℚ) * 2 ^ f.exponent bits = |x| ∧
      f.isNegative bits = decide (x < 0) := by
  have power : (0 : ℚ) < 2 ^ f.exponent bits := by positivity
  have magnitude : 0 ≤ (f.significand bits : ℚ) * 2 ^ f.exponent bits := by positivity
  unfold number? at denotes
  split at denotes
  · rename_i finite
    obtain rfl := Option.some.inj denotes
    refine ⟨finite, ?_, ?_⟩
    · rw [mul_assoc, abs_mul, abs_of_nonneg magnitude]
      split <;> simp
    · rw [mul_assoc] at nonzero ⊢
      have positive := lt_of_le_of_ne magnitude (Ne.symm (right_ne_zero_of_mul nonzero))
      cases f.isNegative bits with
      | false => simpa using magnitude
      | true => simpa using positive
  · cases denotes

/-- Bringing a number into another format rounds the number. -/
theorem convert_eq_nearest {target : Format} (denotes : f.number? bits = some x) (nonzero : x ≠ 0) :
    f.convert target bits = target.nearest x := by
  obtain ⟨finite, magnitude, sign⟩ := of_number? denotes nonzero
  rw [convert, isNaN_of_isFinite finite, if_neg Bool.false_ne_true, if_pos finite]
  exact withSign_roundRatio target (scaled_pos _ _) sign ((scaled_ratio _ _).trans magnitude)

/-- Only the bits of the sign and of the magnitude count. -/
private theorem withSign_magnitude_mod (f : Format) (bits : Nat) :
    f.withSign (f.isNegative bits) (f.magnitude bits) = bits % 2 ^ (f.signBit + 1) := by
  have whole := @withSign_magnitude f (bits % 2 ^ (f.signBit + 1)) (Nat.mod_lt _ (Nat.two_pow_pos _))
  have sign : f.isNegative (bits % 2 ^ (f.signBit + 1)) = f.isNegative bits := by
    simp [isNegative, Nat.testBit_mod_two_pow]
  have magnitude : f.magnitude (bits % 2 ^ (f.signBit + 1)) = f.magnitude bits := by
    rw [Format.magnitude, Format.magnitude, Nat.pow_eq]
    exact Nat.mod_mod_of_dvd _ (Nat.pow_dvd_pow 2 (Nat.le_succ _))
  rwa [sign, magnitude] at whole

/-- What the format can represent is rounded to the pattern that denotes it. -/
theorem nearest_eq (denotes : f.number? bits = some x) (nonzero : x ≠ 0) :
    f.nearest x = bits % 2 ^ (f.signBit + 1) := by
  obtain ⟨finite, magnitude, sign⟩ := of_number? denotes nonzero
  have ratio := (scaled_ratio (f.significand bits) (f.exponent bits)).trans magnitude
  rw [← withSign_roundRatio f (scaled_pos _ _) sign ratio,
    (canonical_significand f bits).roundRatio_eq ?_ (scaled_pos _ _) (scaled_ratio _ _), pack_significand,
    withSign_magnitude_mod]
  rw [pack_significand]
  exact Nat.le_of_lt (by simpa [isFinite] using finite)

end Ieee.Format

end FlatTable

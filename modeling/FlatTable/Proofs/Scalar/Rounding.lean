import Mathlib.Algebra.Order.Field.Power
import Mathlib.Algebra.Order.Field.Rat
import Mathlib.Tactic.FieldSimp
import Mathlib.Tactic.Linarith
import Mathlib.Tactic.Ring
import FlatTable.Ieee

/-! Rounding leaves alone what a format can represent. So a finite number that is brought into a wider
format and back is unchanged. -/
namespace FlatTable.Ieee

namespace Format
variable {f : Format} {m : Nat} {e : Int}

theorem scaled_pos (m : Nat) (e : Int) : 0 < (scaled m e).2 := by
  cases e with
  | ofNat k => exact Nat.one_pos
  | negSucc k => exact Nat.two_pow_pos (k + 1)

theorem scaled_ratio (m : Nat) (e : Int) :
    ((scaled m e).1 : ℚ) / (scaled m e).2 = m * 2 ^ e := by
  cases e with
  | ofNat k => simp [scaled]
  | negSucc k => simp [scaled, zpow_negSucc, div_eq_mul_inv]

/-- `m * 2 ^ e` as the format writes it: the significand is of full width, or the exponent is the
least one. -/
structure Canonical (f : Format) (m : Nat) (e : Int) : Prop where
  lt : m < 2 ^ (f.fractionBits + 1)
  least : f.minExponent ≤ e
  full : 2 ^ f.fractionBits ≤ m ∨ e = f.minExponent

def pack (f : Format) (m : Nat) (e : Int) : Nat :=
  (e - f.minExponent).toNat * 2 ^ f.fractionBits + m

theorem canonical_significand (f : Format) (bits : Nat) :
    f.Canonical (f.significand bits) (f.exponent bits) := by
  have hidden : 0 < 2 ^ f.fractionBits := Nat.two_pow_pos _
  have rest := Nat.mod_lt (f.magnitude bits) hidden
  refine ⟨?_, by simp [exponent], ?_⟩
  · simp only [significand, Nat.pow_eq, Nat.pow_succ]
    split <;> omega
  · simp only [significand, exponent, Nat.pow_eq]
    split
    · rename_i small
      rw [Nat.div_eq_of_lt small]
      exact .inr (by simp)
    · exact .inl (Nat.le_add_left _ _)

theorem pack_significand (f : Format) (bits : Nat) :
    f.pack (f.significand bits) (f.exponent bits) = f.magnitude bits := by
  have hidden : 0 < 2 ^ f.fractionBits := Nat.two_pow_pos _
  simp only [pack, significand, exponent, Nat.pow_eq, add_sub_cancel_left, Int.toNat_natCast]
  split
  · rename_i small
    rw [Nat.div_eq_of_lt small, Nat.zero_sub, Nat.zero_mul, Nat.zero_add]
  · rename_i large
    have positive : 0 < f.magnitude bits / 2 ^ f.fractionBits :=
      Nat.div_pos (Nat.le_of_not_lt large) hidden
    obtain ⟨k, quotient⟩ := Nat.exists_eq_succ_of_ne_zero (Nat.ne_of_gt positive)
    have split := Nat.div_add_mod (f.magnitude bits) (2 ^ f.fractionBits)
    rw [quotient, Nat.mul_succ, Nat.mul_comm] at split
    rw [quotient, Nat.succ_sub_one]
    omega

/-- A magnitude is read as it was packed. -/
theorem Canonical.unpack (h : f.Canonical m e) {bits : Nat} (magnitude : f.magnitude bits = f.pack m e) :
    f.significand bits = m ∧ f.exponent bits = e := by
  have lt := h.lt
  have least := h.least
  rw [Nat.pow_succ] at lt
  simp only [significand, exponent, magnitude, pack, Nat.pow_eq]
  rcases h.full with full | rfl
  · have quotient : ((e - f.minExponent).toNat * 2 ^ f.fractionBits + m) / 2 ^ f.fractionBits =
        (e - f.minExponent).toNat + 1 := by
      rw [Nat.add_comm, Nat.add_mul_div_right _ _ (Nat.two_pow_pos _), Nat.add_comm,
        Nat.div_eq_of_lt_le (k := 1) (by omega) (by omega)]
    have remainder : ((e - f.minExponent).toNat * 2 ^ f.fractionBits + m) % 2 ^ f.fractionBits =
        m - 2 ^ f.fractionBits := by
      rw [Nat.add_comm, Nat.add_mul_mod_self_right, Nat.mod_eq_sub_mod full,
        Nat.mod_eq_of_lt (by omega)]
    rw [quotient, remainder, if_neg (by omega)]
    omega
  · rw [Int.sub_self, Int.toNat_zero, Nat.zero_mul, Nat.zero_add]
    split
    · rename_i small
      rw [Nat.div_eq_of_lt small]
      simp
    · rename_i large
      rw [Nat.mod_eq_sub_mod (by omega), Nat.mod_eq_of_lt (by omega),
        Nat.div_eq_of_lt_le (k := 1) (by omega) (by omega)]
      omega

section
variable {num den : Nat}

private theorem two_zpow_lt_iff {a b : Int} : (2 : ℚ) ^ a < 2 ^ b ↔ a < b :=
  zpow_lt_zpow_iff_right₀ (by norm_num)

private theorem two_zpow_pos (a : Int) : (0 : ℚ) < 2 ^ a := by positivity

/-- A quotient lies in the binades that the binary logarithms leave. -/
private theorem ratio_log2 (hn : num ≠ 0) (hd : den ≠ 0) :
    (2 : ℚ) ^ ((num.log2 : Int) - den.log2 - 1) < num / den ∧
      (num / den : ℚ) < 2 ^ ((num.log2 : Int) - den.log2 + 1) := by
  have two : (2 : ℚ) ≠ 0 := by norm_num
  have numLow : (2 : ℚ) ^ (num.log2 : Int) ≤ num := by
    exact_mod_cast Nat.log2_self_le hn
  have numHigh : (num : ℚ) < 2 ^ ((num.log2 : Int) + 1) := by
    exact_mod_cast Nat.lt_log2_self
  have denLow : (2 : ℚ) ^ (den.log2 : Int) ≤ den := by
    exact_mod_cast Nat.log2_self_le hd
  have denHigh : (den : ℚ) < 2 ^ ((den.log2 : Int) + 1) := by
    exact_mod_cast Nat.lt_log2_self
  have positive : (0 : ℚ) < den := by exact_mod_cast Nat.pos_of_ne_zero hd
  constructor
  · rw [lt_div_iff₀ positive]
    calc (2 : ℚ) ^ ((num.log2 : Int) - den.log2 - 1) * den
        < 2 ^ ((num.log2 : Int) - den.log2 - 1) * 2 ^ ((den.log2 : Int) + 1) :=
          mul_lt_mul_of_pos_left denHigh (two_zpow_pos _)
      _ = 2 ^ (num.log2 : Int) := by rw [← zpow_add₀ two]; congr 1; ring
      _ ≤ num := numLow
  · rw [div_lt_iff₀ positive]
    calc (num : ℚ) < 2 ^ ((num.log2 : Int) + 1) := numHigh
      _ = 2 ^ ((num.log2 : Int) - den.log2 + 1) * 2 ^ (den.log2 : Int) := by
          rw [← zpow_add₀ two]; congr 1; ring
      _ ≤ 2 ^ ((num.log2 : Int) - den.log2 + 1) * den :=
          mul_le_mul_of_nonneg_left denLow (two_zpow_pos _).le

private def InBinade (x : ℚ) (k : Int) : Prop := (2 : ℚ) ^ k ≤ x ∧ x < 2 ^ (k + 1)

private theorem InBinade.unique {x : ℚ} {k l : Int} (first : InBinade x k) (second : InBinade x l) :
    k = l := by
  have below := two_zpow_lt_iff.mp (lt_of_le_of_lt first.1 second.2)
  have above := two_zpow_lt_iff.mp (lt_of_le_of_lt second.1 first.2)
  omega

/-- The test for the lower of the two binades that the binary logarithms leave. -/
private theorem scaled_lt_iff (posDen : (0 : ℚ) < den) (k : Int) :
    num * (scaled den k).2 < 2 ^ (f.fractionBits + 1) * (scaled den k).1 ↔
      (num : ℚ) / den < 2 ^ (k + f.fractionBits + 1) := by
  have two : (2 : ℚ) ≠ 0 := by norm_num
  have posScaled : (0 : ℚ) < (scaled den k).2 := by exact_mod_cast scaled_pos den k
  have ratio := scaled_ratio den k
  rw [div_eq_iff posScaled.ne'] at ratio
  rw [div_lt_iff₀ posDen, ← Nat.cast_lt (α := ℚ), Nat.cast_mul, Nat.cast_mul, ratio,
    show ((2 ^ (f.fractionBits + 1) : Nat) : ℚ) * (den * 2 ^ k * (scaled den k).2) =
      2 ^ (k + f.fractionBits + 1) * den * (scaled den k).2 by
        rw [show k + (f.fractionBits : Int) + 1 = ((f.fractionBits + 1 : Nat) : Int) + k by
          push_cast; ring, zpow_add₀ two, zpow_natCast]
        push_cast
        ring]
  exact mul_lt_mul_iff_left₀ posScaled

/-- The exponent is that of the binade, or the least one. -/
private theorem exists_exponentFor (f : Format) (some : num ≠ 0) (positive : 0 < den) :
    ∃ k, InBinade (num / den) k ∧ f.exponentFor num den = max (k - f.fractionBits) f.minExponent := by
  have posDen : (0 : ℚ) < den := by exact_mod_cast positive
  obtain ⟨low, high⟩ := ratio_log2 some (Nat.ne_of_gt positive)
  have test := @scaled_lt_iff f num den posDen ((num.log2 : Int) - den.log2 - 1 - f.fractionBits)
  rw [show (num.log2 : Int) - den.log2 - 1 - f.fractionBits + f.fractionBits + 1 =
    (num.log2 : Int) - den.log2 - 1 + 1 by ring] at test
  simp only [exponentFor, Nat.pow_eq]
  split
  · rename_i small
    exact ⟨(num.log2 : Int) - den.log2 - 1, ⟨low.le, test.mp small⟩, rfl⟩
  · rename_i large
    have above := not_lt.mp (mt test.mpr large)
    rw [sub_add_cancel] at above
    refine ⟨(num.log2 : Int) - den.log2, ⟨above, high⟩, ?_⟩
    congr 1
    ring

/-- The exponent at which a number is written in the format. -/
theorem Canonical.exponentFor_eq (h : f.Canonical m e) (nonzero : m ≠ 0) (positive : 0 < den)
    (value : (num : ℚ) / den = m * 2 ^ e) : f.exponentFor num den = e := by
  have two : (2 : ℚ) ≠ 0 := by norm_num
  have some : num ≠ 0 := by
    rintro rfl
    rw [Nat.cast_zero, zero_div, eq_comm, mul_eq_zero] at value
    rcases value with zero | zero
    · exact nonzero (by exact_mod_cast zero)
    · exact absurd zero (two_zpow_pos e).ne'
  obtain ⟨k, binade, exponent⟩ := exists_exponentFor f some positive
  have above : (num : ℚ) / den < 2 ^ (e + f.fractionBits + 1) := by
    rw [value, show e + (f.fractionBits : Int) + 1 = ((f.fractionBits + 1 : Nat) : Int) + e by
      push_cast; ring, zpow_add₀ two]
    exact mul_lt_mul_of_pos_right (by exact_mod_cast h.lt) (two_zpow_pos e)
  have least := h.least
  rw [exponent]
  rcases h.full with full | rfl
  · have below : (2 : ℚ) ^ (e + f.fractionBits) ≤ num / den := by
      rw [value, add_comm, zpow_add₀ two]
      exact mul_le_mul_of_nonneg_right (by exact_mod_cast full) (two_zpow_pos e).le
    obtain rfl := binade.unique ⟨below, above⟩
    omega
  · have := two_zpow_lt_iff.mp (lt_of_le_of_lt binade.1 above)
    omega

private theorem roundHalfEven_mul_right (num den : Nat) {k : Nat} (positive : 0 < k) :
    roundHalfEven (num * k) (den * k) = roundHalfEven num den := by
  simp only [roundHalfEven, Nat.mul_div_mul_right _ _ positive, Nat.mul_mod_mul_right, ← Nat.mul_assoc,
    Nat.mul_lt_mul_right positive]

private theorem roundHalfEven_congr {num' den' : Nat} (positive : 0 < den) (positive' : 0 < den')
    (cross : num * den' = num' * den) : roundHalfEven num den = roundHalfEven num' den' := by
  rw [← roundHalfEven_mul_right num den positive', cross, Nat.mul_comm den,
    roundHalfEven_mul_right num' den' positive]

/-- Rounding depends only on the number, however it is written as a quotient. -/
theorem roundRatio_congr {num' den' : Nat} (f : Format) (positive : 0 < den) (positive' : 0 < den')
    (same : (num : ℚ) / den = num' / den') : f.roundRatio num den = f.roundRatio num' den' := by
  have posDen : (0 : ℚ) < den := by exact_mod_cast positive
  have posDen' : (0 : ℚ) < den' := by exact_mod_cast positive'
  have cross : num * den' = num' * den := by
    have := (div_eq_div_iff posDen.ne' posDen'.ne').mp same
    exact_mod_cast this
  by_cases zero : num = 0
  · obtain rfl : num' = 0 := by
      rw [zero, Nat.zero_mul] at cross
      exact (Nat.mul_eq_zero.mp cross.symm).resolve_right positive.ne'
    rw [zero, roundRatio, roundRatio, if_pos rfl, if_pos rfl]
  · have zero' : num' ≠ 0 := by
      rintro rfl
      rw [Nat.zero_mul] at cross
      exact (Nat.mul_eq_zero.mp cross).elim zero positive'.ne'
    obtain ⟨k, binade, exponent⟩ := exists_exponentFor f zero positive
    obtain ⟨k', binade', exponent'⟩ := exists_exponentFor f zero' positive'
    rw [← same] at binade'
    obtain rfl := binade.unique binade'
    have place : f.exponentFor num' den' = f.exponentFor num den := by rw [exponent, exponent']
    simp only [roundRatio, if_neg zero, if_neg zero', place]
    have common (e : Int) : roundHalfEven (num * (scaled den e).2) (scaled den e).1 =
        roundHalfEven (num' * (scaled den' e).2) (scaled den' e).1 := by
      cases e with
      | ofNat k =>
        have power := Nat.two_pow_pos k
        refine roundHalfEven_congr (Nat.mul_pos positive power) (Nat.mul_pos positive' power) ?_
        simp only [scaled, Nat.mul_one, ← Nat.mul_assoc, cross]
      | negSucc k =>
        refine roundHalfEven_congr positive positive' ?_
        simp only [scaled, Nat.mul_right_comm _ _ den', Nat.mul_right_comm _ _ den, cross]
    rw [common]

/-- What the format can represent is not rounded. -/
theorem Canonical.roundRatio_eq (h : f.Canonical m e) (finite : f.pack m e ≤ f.infinity)
    (positive : 0 < den) (value : (num : ℚ) / den = m * 2 ^ e) :
    f.roundRatio num den = f.pack m e := by
  have posDen : (0 : ℚ) < den := by exact_mod_cast positive
  by_cases zero : m = 0
  · subst zero
    obtain rfl : e = f.minExponent :=
      h.full.resolve_left (Nat.not_le.mpr (Nat.two_pow_pos _))
    rw [Nat.cast_zero, zero_mul, div_eq_zero_iff] at value
    have none : num = 0 := by
      rcases value with none | none
      · exact_mod_cast none
      · exact absurd none posDen.ne'
    simp [roundRatio, pack, none]
  · have some : num ≠ 0 := by
      rintro rfl
      rw [Nat.cast_zero, zero_div, eq_comm, mul_eq_zero] at value
      rcases value with none | none
      · exact zero (by exact_mod_cast none)
      · exact absurd none (two_zpow_pos e).ne'
    have posScaled : (0 : ℚ) < (scaled den e).2 := by exact_mod_cast scaled_pos den e
    have ratio := scaled_ratio den e
    rw [div_eq_iff posScaled.ne'] at ratio
    have place := h.exponentFor_eq zero positive value
    rw [div_eq_iff posDen.ne'] at value
    have exact : num * (scaled den e).2 = m * (scaled den e).1 := by
      have : ((num * (scaled den e).2 : Nat) : ℚ) = (m * (scaled den e).1 : Nat) := by
        rw [Nat.cast_mul, Nat.cast_mul, value, ratio]
        ring
      exact_mod_cast this
    have dividend : 0 < (scaled den e).1 := by
      have : (0 : ℚ) < (scaled den e).1 := by
        rw [ratio]
        exact mul_pos (mul_pos posDen (two_zpow_pos e)) posScaled
      exact_mod_cast this
    have rounded : roundHalfEven (num * (scaled den e).2) (scaled den e).1 = m := by
      simp only [roundHalfEven, exact, Nat.mul_div_cancel _ dividend, Nat.mul_mod_left,
        Nat.mul_zero, if_pos dividend]
    simp only [roundRatio, if_neg some, place, rounded, Nat.pow_eq]
    exact Nat.min_eq_left finite

end

/-! ### Widening -/

theorem infinity_lt (f : Format) : f.infinity < 2 ^ f.signBit := by
  have one : 0 < 2 ^ f.exponentBits := Nat.two_pow_pos _
  rw [infinity, signBit, Nat.pow_eq, Nat.pow_eq, Nat.pow_add, Nat.mul_comm (2 ^ f.fractionBits)]
  exact Nat.mul_lt_mul_of_pos_right (by omega) (Nat.two_pow_pos _)

theorem magnitude_withSign {magnitude : Nat} (negative : Bool) (small : magnitude < 2 ^ f.signBit) :
    f.magnitude (f.withSign negative magnitude) = magnitude := by
  cases negative <;> simp [Format.magnitude, withSign, Nat.mod_eq_of_lt small]

theorem isNegative_withSign {magnitude : Nat} (negative : Bool)
    (small : magnitude < 2 ^ f.signBit) :
    f.isNegative (f.withSign negative magnitude) = negative := by
  cases negative with
  | false => simpa [isNegative, withSign] using Nat.testBit_lt_two_pow small
  | true =>
    have plain := Nat.testBit_lt_two_pow small
    simp [isNegative, withSign, Nat.add_comm magnitude, Nat.testBit_two_pow_add_eq, plain]

/-- A pattern is its sign and its magnitude. -/
theorem withSign_magnitude {bits : Nat} (small : bits < 2 ^ (f.signBit + 1)) :
    f.withSign (f.isNegative bits) (f.magnitude bits) = bits := by
  have split := Nat.div_add_mod bits (2 ^ f.signBit)
  have upTo : bits / 2 ^ f.signBit < 2 :=
    Nat.div_lt_of_lt_mul (by rw [← Nat.pow_succ]; exact small)
  simp only [withSign, isNegative, magnitude, Nat.pow_eq, Nat.testBit_eq_decide_div_mod_eq,
    Nat.mod_eq_of_lt upTo, decide_eq_true_eq]
  split
  · rename_i negative
    rw [negative, Nat.mul_one] at split
    omega
  · rename_i positive
    have zero : bits / 2 ^ f.signBit = 0 :=
      Nat.lt_one_iff.mp (Nat.lt_of_le_of_ne (Nat.le_of_lt_succ upTo) positive)
    rw [zero, Nat.mul_zero, Nat.zero_add] at split
    exact split

theorem isNaN_of_isFinite {bits : Nat} (finite : f.isFinite bits) : f.isNaN bits = false := by
  simp only [isFinite, isNaN, decide_eq_true_eq, decide_eq_false_iff_not] at finite ⊢
  omega

/-- A finite number is brought to the pattern that the other format writes it with, if it has one. -/
theorem convert_eq {given target : Format} {bits : Nat} (finite : given.isFinite bits)
    (canonical : target.Canonical m e) (inRange : target.pack m e ≤ target.infinity)
    (same : (given.significand bits : ℚ) * 2 ^ given.exponent bits = m * 2 ^ e) :
    given.convert target bits = target.withSign (given.isNegative bits) (target.pack m e) := by
  rw [convert, isNaN_of_isFinite finite, if_neg Bool.false_ne_true, if_pos finite]
  simp only [ratio]
  rw [canonical.roundRatio_eq inRange (scaled_pos _ _) ((scaled_ratio _ _).trans same)]

/-- A number of single width is also one of double width. -/
private theorem exists_double {bits : Nat} (finite : single.isFinite bits) :
    ∃ m e, double.Canonical m e ∧ double.pack m e < double.infinity ∧
      (single.significand bits : ℚ) * 2 ^ single.exponent bits = m * 2 ^ e := by
  have canonical := canonical_significand single bits
  have packed := pack_significand single bits
  have least := canonical.least
  have small := canonical.lt
  rw [isFinite, decide_eq_true_eq, ← packed] at finite
  generalize single.significand bits = m at *
  generalize single.exponent bits = e at *
  by_cases zero : m = 0
  · subst zero
    exact ⟨0, double.minExponent, ⟨by decide, Int.le_refl _, .inr rfl⟩, by decide, by simp⟩
  · have bounds : 2 ^ m.log2 ≤ m ∧ m < 2 ^ (m.log2 + 1) :=
      ⟨Nat.log2_self_le zero, Nat.lt_log2_self⟩
    have narrow : m.log2 < 24 := (Nat.log2_lt zero).mpr small
    have raised (k : Nat) : 2 ^ k * 2 ^ (52 - m.log2) = 2 ^ (k + (52 - m.log2)) := (Nat.pow_add ..).symm
    have lower := Nat.mul_le_mul_right (2 ^ (52 - m.log2)) bounds.1
    have upper := Nat.mul_lt_mul_of_pos_right bounds.2 (Nat.two_pow_pos (52 - m.log2))
    rw [raised, show m.log2 + (52 - m.log2) = 52 by omega] at lower
    rw [raised, show m.log2 + 1 + (52 - m.log2) = 53 by omega] at upper
    have single : single.minExponent = -149 ∧ single.infinity = 255 * 2 ^ 23 := by decide
    have double : double.minExponent = -1074 ∧ double.infinity = 2047 * 2 ^ 52 := by decide
    rw [single.1] at least
    simp only [pack, single, show Format.single.fractionBits = 23 from rfl] at finite
    have most : e ≤ 105 := by omega
    refine ⟨m * 2 ^ (52 - m.log2), e - (52 - m.log2 : Nat), ⟨upper, ?_, .inl lower⟩, ?_, ?_⟩
    · rw [double.1]
      omega
    · rw [pack, double.1, double.2, show Format.double.fractionBits = 52 from rfl]
      generalize m * 2 ^ (52 - m.log2) = significand at upper
      clear lower raised finite bounds
      omega
    · rw [zpow_sub₀ (by norm_num), zpow_natCast]
      push_cast
      field_simp

/-- No finite number of single width is too large for double width. -/
theorem isFinite_convert_double {bits : Nat} (finite : single.isFinite bits) :
    double.isFinite (single.convert double bits) := by
  obtain ⟨m, e, canonical, inRange, same⟩ := exists_double finite
  rw [convert_eq finite canonical (Nat.le_of_lt inRange) same, isFinite,
    magnitude_withSign _ (Nat.lt_trans inRange (infinity_lt double)), decide_eq_true_eq]
  exact inRange

/-- What is finite is equal to itself. -/
theorem numEq_self {bits : Nat} (finite : f.isFinite bits) : f.numEq bits bits := by
  simp [numEq, isNaN_of_isFinite finite]

/-- A finite number of single width comes back from double width as it was. -/
theorem convert_double_single {bits : Nat} (pattern : bits < 2 ^ 32)
    (finite : single.isFinite bits) : double.convert single (single.convert double bits) = bits := by
  obtain ⟨m, e, canonical, inRange, same⟩ := exists_double finite
  rw [convert_eq finite canonical (Nat.le_of_lt inRange) same]
  have small := Nat.lt_trans inRange (infinity_lt double)
  have magnitude := magnitude_withSign (f := double) (single.isNegative bits) small
  obtain ⟨significand, exponent⟩ := canonical.unpack magnitude
  have back : double.isFinite (double.withSign (single.isNegative bits) (double.pack m e)) := by
    rw [isFinite, magnitude, decide_eq_true_eq]
    exact inRange
  rw [isFinite, decide_eq_true_eq] at finite
  rw [convert_eq back (canonical_significand single bits)
    (by rw [pack_significand]; exact Nat.le_of_lt finite)
    (by rw [significand, exponent]; exact same.symm), isNegative_withSign _ small, pack_significand]
  exact withSign_magnitude pattern

end Format
end FlatTable.Ieee

import Mathlib.Data.Nat.Cast.Field
import FlatTable.Proofs.Scalar.Shown
import FlatTable.Schema.Resolve

/-! Numbers as values of integer types: which are taken, and whether the value is the number. -/
namespace FlatTable
open Ieee

def Ieee.Format.number? (f : Format) (bits : Nat) : Option ℚ :=
  if f.isFinite bits then
    some ((if f.isNegative bits then -1 else 1) * f.significand bits * 2 ^ f.exponent bits)
  else none

namespace ScalarType

def Has : ScalarType → Int → Prop
  | .bool, i => 0 ≤ i ∧ i ≤ 1
  | .byte, i => -128 ≤ i ∧ i ≤ 127
  | .ubyte, i => 0 ≤ i ∧ i ≤ 255
  | .short, i => -32768 ≤ i ∧ i ≤ 32767
  | .ushort, i => 0 ≤ i ∧ i ≤ 65535
  | .int, i => -2147483648 ≤ i ∧ i ≤ 2147483647
  | .uint, i => 0 ≤ i ∧ i ≤ 4294967295
  | .long, i => -9223372036854775808 ≤ i ∧ i ≤ 9223372036854775807
  | .ulong, i => 0 ≤ i ∧ i ≤ 18446744073709551615
  | .float, _ | .double, _ => False

/-- The result is the value that denotes the number, and there is one if the type has one. -/
def Exactly (t : ScalarType) (i : Int) (result : Option Value) : Prop :=
  (result.isSome ↔ t.Has i) ∧ ∀ v, result = some v → v.type = t ∧ v.integer = i

/-- A binary64 number that is an integer is taken for another one: out of the range of `long` it is brought
into it, and out of that of `ulong` too, but 2 ^ 63 is brought into the range of `long` for both. -/
def Saturates : ScalarType → Int → Int → Prop
  | .long, i, j => (i < -(2 ^ 63) ∧ j = -(2 ^ 63)) ∨ (i = 2 ^ 63 ∧ j = 2 ^ 63 - 1)
  | .ulong, i, j => (2 ^ 64 ≤ i ∧ j = 2 ^ 64 - 1) ∨ (i = 2 ^ 63 ∧ j = 2 ^ 63 - 1)
  | _, _, _ => False

def written? (t : ScalarType) (text : String) : Option Int :=
  let cs := Text.trim text.toList
  match t with
  | .bool =>
    if cs = "true".toList then some 1 else if cs = "false".toList then some 0 else Decimal.signed? cs
  | .ulong => (Decimal.unsigned? cs).map Int.ofNat
  | _ => Decimal.signed? cs

def Reads (t : ScalarType) (number : Option Int) (result : Option Value) : Prop :=
  match number with
  | none => result = none
  | some i => t.Exactly i result

end ScalarType

def Schema.enumerator? (s : Schema) (type : FieldType) (name : String) : Option Int :=
  match type with
  | .enum id => s.enums[id]?.bind fun e => e.valueOf? name
  | _ => none

/-- The integer that JSON stands for where one of type `t` is asked for. Texts that are no names are numbers in
decimal. -/
def Json.integer? (t : ScalarType) (named : String → Option Int) : Json → Option Int
  | .bool b => if t = .bool then some b.toNat else none
  | .integer i => some i
  | .real bits => Format.double.toInt? bits
  | .string text => (named text).or (t.written? text)
  | _ => none

/-! ### Binary64 -/

namespace Ieee.Format
variable {f : Format} {bits : Nat} {i : Int}

/-- A quotient is an integer if the division leaves no rest. -/
private theorem ratio_eq_intCast_iff {n d : Nat} (positive : 0 < d) (negative : Bool) :
    (if negative then -1 else 1) * ((n : ℚ) / d) = i ↔
      n % d = 0 ∧ (if negative then -(n / d : Nat) else (n / d : Nat) : Int) = i := by
  have nonzero : (d : ℚ) ≠ 0 := by exact_mod_cast positive.ne'
  constructor
  · intro same
    have whole : (n : Int) = (if negative then -1 else 1) * i * d := by
      have scaled : (n : ℚ) = ((if negative then -1 else 1) * i * d : Int) := by
        push_cast
        rw [← same]
        cases negative <;> simp [div_mul_cancel₀ _ nonzero]
      exact_mod_cast scaled
    have divides : d ∣ n := by
      have : (d : Int) ∣ n := ⟨_, by rw [whole, Int.mul_comm]⟩
      exact_mod_cast this
    refine ⟨Nat.mod_eq_zero_of_dvd divides, ?_⟩
    have quotient : ((n / d : Nat) : Int) = (if negative then -1 else 1) * i := by
      rw [Int.natCast_ediv, whole, Int.mul_ediv_cancel _ (by omega)]
    rw [quotient]
    cases negative <;> simp
  · rintro ⟨rest, rfl⟩
    have quotient : ((n / d : Nat) : ℚ) = n / d := Nat.cast_div (Nat.dvd_of_mod_eq_zero rest) nonzero
    cases negative with
    | false =>
      simp only [Bool.false_eq_true, if_false]
      rw [Int.cast_natCast, quotient, one_mul]
    | true =>
      simp only [if_true]
      rw [Int.cast_neg, Int.cast_natCast, quotient, neg_one_mul]

/-- A pattern is taken for an integer if it denotes one. -/
theorem toInt?_eq_some_iff : f.toInt? bits = some i ↔ f.number? bits = some (i : ℚ) := by
  unfold toInt? number?
  cases f.isFinite bits with
  | false => simp
  | true =>
    have positive := scaled_pos (f.significand bits) (f.exponent bits)
    have value := scaled_ratio (f.significand bits) (f.exponent bits)
    rw [if_pos rfl, if_pos rfl, mul_assoc, ← value, Option.some.injEq,
      ratio_eq_intCast_iff positive]
    change (if (f.ratio bits).1 % (f.ratio bits).2 = 0 then _ else none) = some i ↔
      (f.ratio bits).1 % (f.ratio bits).2 = 0 ∧ _
    split
    · rename_i rest
      rw [Option.some.injEq, and_iff_right rest]
      rfl
    · rename_i rest
      simp [rest]

end Ieee.Format

/-! ### Integers -/

namespace ScalarType
variable {t : ScalarType} {i : Int} {v : Value}

theorem Exactly.congr {j : Int} {result : Option Value} (h : t.Exactly i result) (has : t.Has j ↔ t.Has i)
    (same : t.Has i → i = j) : t.Exactly j result := by
  refine ⟨h.1.trans has.symm, fun v found => ?_⟩
  obtain ⟨type, integer⟩ := h.2 v found
  exact ⟨type, integer.trans (same (h.1.mp (by rw [found, Option.isSome_some])))⟩

private theorem has_iff (integral : t.format? = none) : t.Has i ↔ t.least ≤ i ∧ i < t.bound := by
  cases t <;> simp [Has, least, bound, isSigned, width, patterns, format?] at integral ⊢ <;> omega

/-- Numbers in the range of a type that leave the same rest are the same. -/
private theorem eq_of_emod_eq {j : Int} (integral : t.format? = none) (first : t.least ≤ i ∧ i < t.bound)
    (second : t.least ≤ j ∧ j < t.bound) (same : i % t.patterns = j % t.patterns) : i = j := by
  cases t <;> simp [least, bound, isSigned, width, patterns, format?] at integral first second same <;> omega

private theorem integer_of_ofLong? (integral : t.format? = none) (h : t.ofLong? i = some v) :
    v.integer = i := by
  rw [ofLong?, integral] at h
  dsimp only at h
  split at h
  · rename_i inside
    obtain rfl := Option.some.inj h
    have positive : (0 : Int) < t.patterns := by cases t <;> decide
    have rest := Int.emod_nonneg i positive.ne'
    have small := Int.emod_lt_of_pos i positive
    have pattern : (t.value (i % t.patterns).toNat).pattern = (i % t.patterns).toNat :=
      normalize_of_lt (by omega)
    by_cases integer : t.isInteger
    · obtain ⟨least, bound, congruent⟩ := Value.integer_bounds (v := t.value (i % t.patterns).toNat) integer
      rw [pattern] at congruent
      refine eq_of_emod_eq integral ⟨least, bound⟩ inside ?_
      have := Int.emod_nonneg (t.value (i % t.patterns).toNat).integer positive.ne'
      rw [type_value] at congruent
      omega
    · obtain rfl : t = .bool := by cases t <;> simp_all [isInteger, format?]
      obtain ⟨nonnegative, less⟩ : 0 ≤ i ∧ i < 2 := inside
      rw [Value.integer, pattern]
      change ((i % 2).toNat : Int) = i
      omega
  · cases h

/-- A `long` is taken exactly. -/
theorem exactly_ofLong? (integral : t.format? = none) (i : Int) : t.Exactly i (t.ofLong? i) := by
  refine ⟨?_, fun v h => ⟨type_of_ofLong? h, integer_of_ofLong? integral h⟩⟩
  rw [has_iff integral, ofLong?, integral]
  dsimp only
  split <;> simp_all

/-- So is a `ulong`. -/
theorem exactly_ofULong? (integral : t.format? = none) {n : Nat} (small : n < 2 ^ 64) :
    t.Exactly n (t.ofULong? n) := by
  unfold ofULong?
  split
  · have has : ulong.Has n := by
      simp only [Has]
      omega
    refine ⟨by simp [has], fun v h => ?_⟩
    cases h
    refine ⟨rfl, ?_⟩
    have pattern : (ulong.value n).pattern = n := normalize_of_lt (show n < ulong.patterns from small)
    rw [Value.integer, pattern]
    rfl
  · rename_i other
    split
    · exact exactly_ofLong? integral n
    · rename_i large
      have none : ¬ t.Has n := by
        simp only [Nat.pow_eq] at large
        cases t <;> simp only [Has] <;> first | omega | simp_all
      exact ⟨by simp [none], fun v h => by cases h⟩

/-! ### Binary64 numbers -/

private theorem ofDouble?_eq (integral : t.format? = none) {bits : Nat}
    (number : Format.double.number? bits = some (i : ℚ)) :
    t.ofDouble? bits = if 2 ^ 63 < i then t.ofULong? (min i (2 ^ 64 - 1)).toNat
      else t.ofLong? (max (-(2 ^ 63)) (min i (2 ^ 63 - 1))) := by
  rw [ofDouble?, integral]
  dsimp only
  rw [Format.toInt?_eq_some_iff.mpr number, Option.bind_some]
  rfl

/-- What is no integer is refused. -/
theorem ofDouble?_eq_none (integral : t.format? = none) {bits : Nat}
    (fraction : ∀ i : Int, Format.double.number? bits ≠ some (i : ℚ)) : t.ofDouble? bits = none := by
  rw [ofDouble?, integral]
  dsimp only
  cases read : Format.double.toInt? bits with
  | none => rfl
  | some i => exact absurd (Format.toInt?_eq_some_iff.mp read) (fraction i)

/-- An integer is taken exactly, unless it saturates. -/
theorem exactly_ofDouble? (integral : t.format? = none) {bits : Nat}
    (number : Format.double.number? bits = some (i : ℚ)) (regular : ∀ j, ¬ t.Saturates i j) :
    t.Exactly i (t.ofDouble? bits) := by
  rw [ofDouble?_eq integral number]
  have long (is : t = .long) : -(2 ^ 63) ≤ i ∧ i ≠ 2 ^ 63 := by
    subst is
    exact ⟨not_lt.mp fun low => regular _ (.inl ⟨low, rfl⟩), fun edge => regular _ (.inr ⟨edge, rfl⟩)⟩
  have ulong (is : t = .ulong) : i < 2 ^ 64 ∧ i ≠ 2 ^ 63 := by
    subst is
    exact ⟨not_le.mp fun high => regular _ (.inl ⟨high, rfl⟩), fun edge => regular _ (.inr ⟨edge, rfl⟩)⟩
  split
  · refine (exactly_ofULong? integral (by omega)).congr ?_ fun has => ?_
    all_goals cases t <;> simp only [Has, reduceCtorEq, forall_const, false_imp_iff] at * <;> omega
  · refine (exactly_ofLong? integral _).congr ?_ fun has => ?_
    all_goals cases t <;> simp only [Has, reduceCtorEq, forall_const, false_imp_iff] at * <;> omega

/-- An integer that saturates is taken for another one. -/
theorem ofDouble?_of_saturates {bits : Nat} {j : Int}
    (number : Format.double.number? bits = some (i : ℚ)) (saturates : t.Saturates i j) :
    ∃ v, t.ofDouble? bits = some v ∧ v.type = t ∧ v.integer = j := by
  have integral : t.format? = none := by cases t <;> first | rfl | exact saturates.elim
  have given {k : Int} {result : Option Value} (exactly : t.Exactly k result) (has : t.Has k) (same : k = j) :
      ∃ v, result = some v ∧ v.type = t ∧ v.integer = j := by
    obtain ⟨v, found⟩ := Option.isSome_iff_exists.mp (exactly.1.mpr has)
    obtain ⟨type, integer⟩ := exactly.2 v found
    exact ⟨v, found, type, integer.trans same⟩
  rw [ofDouble?_eq integral number]
  split
  · refine given (exactly_ofULong? integral (by omega)) ?_ ?_
    all_goals cases t <;> simp only [Has, Saturates] at * <;> omega
  · refine given (exactly_ofLong? integral _) ?_ ?_
    all_goals cases t <;> simp only [Has, Saturates] at * <;> omega

/-! ### Texts and JSON -/

private theorem exactly_bool (b : Bool) : bool.Exactly b.toNat (some (bool.value b.toNat)) := by
  refine ⟨iff_of_true rfl ?_, fun v h => ?_⟩
  · cases b <;> simp [Has]
  · cases h
    cases b <;> exact ⟨rfl, rfl⟩

private theorem reads_long? (integral : t.format? = none) (signed : t ≠ .ulong) (cs : List Char) :
    t.Reads (Decimal.signed? cs) ((long? cs).bind t.ofLong?) := by
  unfold long?
  cases Decimal.signed? cs with
  | none => rfl
  | some i =>
    rw [Option.bind_some]
    split
    · exact exactly_ofLong? integral i
    · rename_i outside
      have none : ¬ t.Has i := by
        simp only [Nat.pow_eq] at outside
        cases t with
        | float | double => cases integral
        | ulong => exact absurd rfl signed
        | _ =>
          simp only [Has]
          omega
      exact ⟨by simp [none], fun v h => by cases h⟩

/-- A text is read as the integer that it denotes. -/
theorem reads_parse? (integral : t.format? = none) (text : String) :
    t.Reads (t.written? text) (t.parse? text) := by
  have signed (signed : t ≠ .ulong) := reads_long? integral signed (Text.trim text.toList)
  cases t with
  | float | double => cases integral
  | bool =>
    simp only [written?, parse?]
    by_cases yes : Text.trim text.toList = "true".toList
    · rw [if_pos yes, if_pos yes]
      exact exactly_bool true
    · rw [if_neg yes, if_neg yes]
      by_cases no : Text.trim text.toList = "false".toList
      · rw [if_pos no, if_pos no]
        exact exactly_bool false
      · rw [if_neg no, if_neg no]
        exact signed (by decide)
  | ulong =>
    simp only [written?, parse?, ulong?]
    cases Decimal.unsigned? (Text.trim text.toList) with
    | none => rfl
    | some n =>
      rw [Option.bind_some, Option.map_some]
      split
      · rename_i small
        exact exactly_ofULong? integral small
      · rename_i large
        have none : ¬ ulong.Has n := by
          simp only [Nat.pow_eq] at large
          simp only [Has]
          omega
        exact ⟨by simp [none], fun v h => by cases h⟩
  | _ => exact signed (by decide)

end ScalarType

/-- A name is read as its enumerator, and another text as the integer that it denotes. -/
private theorem reads_named {t : ScalarType} (integral : t.format? = none) (named : Option Int)
    (text : String) :
    t.Reads (named.or (t.written? text))
      (match named with
        | some value => t.ofLong? value
        | none => t.parse? text) := by
  cases named with
  | some value => exact ScalarType.exactly_ofLong? integral value
  | none => exact ScalarType.reads_parse? integral text

section
variable {s : Schema} {type : FieldType} {t : ScalarType} (scalar : s.scalarType? type = some t)
  (integral : t.format? = none) {json : Json} (exact : ∀ bits, json ≠ .real bits)
  (small : ∀ i, json = .integer i → i < 2 ^ 64)
include scalar integral exact small

/-- JSON other than a number of binary64 is read as the integer that it stands for. -/
private theorem reads_scalarOfJson? :
    t.Reads (json.integer? t (s.enumerator? type)) (s.scalarOfJson? type json) := by
  rw [Schema.scalarOfJson?, scalar, Option.bind_some]
  cases json with
  | null | array _ | object _ => rfl
  | real bits => exact absurd rfl (exact bits)
  | bool b =>
    simp only [Json.integer?]
    split
    · rename_i isBool
      subst isBool
      exact ScalarType.exactly_bool b
    · rfl
  | integer i =>
    have small := small i rfl
    change t.Exactly i (if 0 ≤ i then t.ofULong? i.toNat else t.ofLong? i)
    split
    · rename_i nonnegative
      have taken := ScalarType.exactly_ofULong? integral (n := i.toNat) (by omega)
      rwa [Int.toNat_of_nonneg nonnegative] at taken
    · exact ScalarType.exactly_ofLong? integral i
  | string text =>
    cases type with
    | enum id =>
      obtain ⟨e, found, _⟩ := Option.map_eq_some_iff.mp scalar
      simp only [Json.integer?, Schema.enumerator?, Schema.scalarOfString?, found, Option.bind_some]
      exact reads_named integral (e.valueOf? text) text
    | _ => exact ScalarType.reads_parse? integral text

private theorem reads_resolveDefault? :
    t.Reads (json.integer? t fun text => s.enumerator? type (Text.stripScope text))
      (s.resolveDefault? type json) := by
  simp only [Schema.resolveDefault?, scalar, Option.bind_eq_bind, Option.bind_some]
  cases json with
  | null | array _ | object _ => rfl
  | real bits => exact absurd rfl (exact bits)
  | bool b =>
    simp only [Json.integer?]
    split
    · rename_i isBool
      subst isBool
      exact ScalarType.exactly_bool b
    · rfl
  | integer i =>
    have small := small i rfl
    change t.Exactly i (if i < 2 ^ 63 then t.ofLong? i else t.ofULong? i.toNat)
    split
    · exact ScalarType.exactly_ofLong? integral i
    · have taken := ScalarType.exactly_ofULong? integral (n := i.toNat) (by omega)
      rwa [Int.toNat_of_nonneg (by omega)] at taken
  | string text => exact reads_named integral (s.enumerator? type (Text.stripScope text)) text

end

namespace ScalarType

/-- What becomes of numbers where integers of this type, or booleans, are asked for. Only a binary64 number
that saturates is taken for another one. -/
structure Conversions (t : ScalarType) : Prop where
  long : ∀ i, -(2 ^ 63) ≤ i → i < 2 ^ 63 → t.Exactly i (t.ofLong? i)
  ulong : ∀ n : Nat, n < 2 ^ 64 → t.Exactly n (t.ofULong? n)
  fraction : ∀ bits, (∀ i : Int, Format.double.number? bits ≠ some (i : ℚ)) → t.ofDouble? bits = none
  regular : ∀ bits (i : Int), Format.double.number? bits = some (i : ℚ) → (∀ j, ¬ t.Saturates i j) →
    t.Exactly i (t.ofDouble? bits)
  saturated : ∀ bits (i j : Int), Format.double.number? bits = some (i : ℚ) → t.Saturates i j →
    ∃ v, t.ofDouble? bits = some v ∧ v.type = t ∧ v.integer = j
  parsed : ∀ text, t.Reads (t.written? text) (t.parse? text)
  json : ∀ (s : Schema) type, s.scalarType? type = some t → ∀ json : Json, (∀ bits, json ≠ .real bits) →
    (∀ i, json = .integer i → i < 2 ^ 64) →
      t.Reads (json.integer? t (s.enumerator? type)) (s.scalarOfJson? type json) ∧
        t.Reads (json.integer? t fun text => s.enumerator? type (Text.stripScope text))
          (s.resolveDefault? type json)
  real : ∀ (s : Schema) type, s.scalarType? type = some t → ∀ bits,
    s.scalarOfJson? type (.real bits) = t.ofDouble? bits ∧
      s.resolveDefault? type (.real bits) = t.ofDouble? bits

/-- An integer is taken exactly or refused, and so is a number of binary64 unless it saturates, wherever the
number comes from. -/
theorem conversions {t : ScalarType} (integral : t.isInteger ∨ t = .bool) : t.Conversions := by
  have integral : t.format? = none := by cases t <;> simp_all [isInteger, format?]
  refine ⟨fun i _ _ => exactly_ofLong? integral i, fun n small => exactly_ofULong? integral small,
    fun bits => ofDouble?_eq_none integral, fun bits i => exactly_ofDouble? integral,
    fun bits i j => ofDouble?_of_saturates, reads_parse? integral, ?_, ?_⟩
  · intro s type scalar json exact small
    exact ⟨reads_scalarOfJson? scalar integral exact small, reads_resolveDefault? scalar integral exact small⟩
  · intro s type scalar bits
    simp only [Schema.scalarOfJson?, Schema.resolveDefault?, scalar, Option.bind_eq_bind, Option.bind_some,
      ofNumber?, Json.numberValue?, and_self]

/-- The greatest power of two that a `long` has a value for is taken for itself. -/
theorem conversions_long :
    ∃ v, ScalarType.long.ofDouble? 0x43D0000000000000 = some v ∧ v.integer = 2 ^ 62 := by
  have number : Format.double.number? 0x43D0000000000000 = some ((2 ^ 62 : Int) : ℚ) :=
    Format.toInt?_eq_some_iff.mp (by decide +kernel)
  have regular (j : Int) : ¬ ScalarType.long.Saturates (2 ^ 62) j := by
    simp only [Saturates]
    omega
  have taken := (conversions (t := .long) (.inl rfl)).regular _ _ number regular
  obtain ⟨v, found⟩ := Option.isSome_iff_exists.mp (taken.1.mpr (by simp [Has]))
  exact ⟨v, found, (taken.2 v found).2⟩

/-- The next one is a `ulong` but taken for the number in front of it. -/
theorem ofDouble?_inexact :
    Format.double.number? 0x43E0000000000000 = some ((2 ^ 63 : Int) : ℚ) ∧ ScalarType.ulong.Has (2 ^ 63) ∧
      ¬ ScalarType.ulong.Exactly (2 ^ 63) (ScalarType.ulong.ofDouble? 0x43E0000000000000) := by
  refine ⟨Format.toInt?_eq_some_iff.mp (by decide +kernel), by simp [Has], fun exactly => ?_⟩
  have taken : ScalarType.ulong.ofDouble? 0x43E0000000000000 =
      some (ScalarType.ulong.value 9223372036854775807) := by decide +kernel
  have same := (exactly.2 _ taken).2
  exact absurd same (by decide +kernel)

end ScalarType
end FlatTable

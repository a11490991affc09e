import FlatTable.Json.Numeral
import FlatTable.Proofs.Convert.Reread
import FlatTable.Proofs.Scalar.Nearest

/-! Numbers of JSON as values of floating-point types. An integer that is held as such and a binary64 number that
denotes the same give the same value, but for the integers that only an unsigned 64-bit number can hold: these
are refused. -/
namespace FlatTable
open Ieee

def Json.number? : Json → Option ℚ
  | .integer i => some i
  | .real bits => Format.double.number? bits
  | _ => none

/-- An integer that is held as such though no `long` has its value. -/
def Json.IsWide : Json → Prop
  | .integer i => 2 ^ 63 ≤ i
  | _ => False

namespace ScalarType
variable {t : ScalarType} {f : Format} (float : t.format? = some f)

/-- What becomes of numbers where floating-point numbers of this format are asked for: which are refused, and
that the others are taken for the same value however they are held, wherever they stand. -/
structure Numbers (t : ScalarType) (f : Format) : Prop where
  refused : ∀ json x, json.number? = some x → (t.ofNumber? json = none ↔ json.IsWide)
  nearest : ∀ json x, json.number? = some x → x ≠ 0 → ¬ json.IsWide →
    t.ofNumber? json = some (t.value (f.nearest x))
  exact : ∀ bits x, f.number? bits = some x → x ≠ 0 → t.value (f.nearest x) = t.value bits
  literal : ∀ (n : Json.Numeral) json, n.value? = some json → (t.ofNumber? json = none ↔
    n.fraction = [] ∧ n.exponent = [] ∧ n.negative = false ∧ 2 ^ 63 ≤ Decimal.digitsValue n.whole ∧
      Decimal.digitsValue n.whole < 2 ^ 64)
  field : ∀ (s : Schema) type json, s.scalarType? type = some t → json.number?.isSome →
    s.scalarOfJson? type json = t.ofNumber? json
  elements : ∀ (s : Schema) field e items, s.elementScalarType? e = some t →
    (∀ item ∈ items, item.number?.isSome) → ∀ values, s.elementsOfJson field e t items = .ok values ↔
      items.Forall₂ (fun item v => t.ofNumber? item = some v) values
  members : ∀ (s : Schema) field id d object, s.structs[id]? = some d →
    (∀ m ∈ object, (d.memberId? m.1).isSome) → ∀ values,
      s.structOfJson field id (.object object) = .ok values ↔ d.members.Forall₂ (fun m v =>
        ∃ item, Json.member? m.name object = some item ∧
          s.scalarOfJson? (.scalar m.type) item = some v) values

include float

private theorem ofNumber?_integer (i : Int) :
    t.ofNumber? (.integer i) = if 2 ^ 63 ≤ i then none else some (t.value (f.ofInt i)) := by
  have long (i : Int) : t.ofLong? i = some (t.value (f.ofInt i)) := by rw [ofLong?, float]
  have ulong (n : Nat) : t.ofULong? n = if n < 2 ^ 63 then t.ofLong? n else none := by
    cases t <;> first | rfl | cases float
  simp only [ofNumber?, ulong, long]
  by_cases nonnegative : 0 ≤ i
  · rw [if_pos nonnegative, Int.toNat_of_nonneg nonnegative]
    by_cases wide : 2 ^ 63 ≤ i
    · rw [if_pos wide, if_neg (by omega)]
    · rw [if_neg wide, if_pos (by omega)]
  · rw [if_neg nonnegative, if_neg (by omega)]

private theorem ofNumber?_real (bits : Nat) : t.ofNumber? (.real bits) =
    some (t.value (if f = Format.double then bits else Format.double.convert f bits)) := by
  rw [ofNumber?, ofDouble?, float]

private theorem value_mod (bits : Nat) : t.value (bits % 2 ^ (f.signBit + 1)) = t.value bits := by
  have patterns : t.patterns = 2 ^ (f.signBit + 1) := by
    cases t <;> cases float <;> rfl
  have normal (n : Nat) : t.normalize n = n % t.patterns := by
    cases t <;> first | rfl | cases float
  simp only [value, normal, patterns, Nat.mod_mod]

private theorem ofNumber?_eq_none_iff {json : Json} {x : ℚ} (denotes : json.number? = some x) :
    t.ofNumber? json = none ↔ json.IsWide := by
  cases json with
  | integer i =>
    rw [ofNumber?_integer float, Json.IsWide]
    split <;> simp_all
  | real bits => simp [ofNumber?_real float, Json.IsWide]
  | null | bool _ | string _ | array _ | object _ => cases denotes

private theorem ofNumber?_eq_nearest {json : Json} {x : ℚ} (denotes : json.number? = some x) (nonzero : x ≠ 0)
    (narrow : ¬ json.IsWide) : t.ofNumber? json = some (t.value (f.nearest x)) := by
  cases json with
  | integer i =>
    obtain rfl := Option.some.inj denotes
    rw [ofNumber?_integer float, if_neg (show ¬ 2 ^ 63 ≤ i from narrow), Format.ofInt_eq_nearest]
  | real bits =>
    rw [ofNumber?_real float]
    split
    · rename_i same
      rw [same, Format.nearest_eq denotes nonzero, ← same, value_mod float]
    · rw [Format.convert_eq_nearest denotes nonzero]
  | null | bool _ | string _ | array _ | object _ => cases denotes

/-- Of what is written only a plain integer that takes all 64 bits is refused. -/
private theorem ofNumber?_literal {n : Json.Numeral} {json : Json} (denotes : n.value? = some json) :
    t.ofNumber? json = none ↔ n.fraction = [] ∧ n.exponent = [] ∧ n.negative = false ∧
      2 ^ 63 ≤ Decimal.digitsValue n.whole ∧ Decimal.digitsValue n.whole < 2 ^ 64 := by
  unfold Json.Numeral.value? at denotes
  simp only [Bool.and_eq_true, List.isEmpty_iff, Bool.not_eq_true', decide_eq_true_eq, Nat.pow_eq] at denotes
  split at denotes
  · rename_i plain
    obtain ⟨⟨⟨fraction, exponent⟩, positive⟩, small⟩ := plain
    cases denotes
    rw [ofNumber?_integer float]
    split
    · rename_i wide
      exact iff_of_true rfl ⟨fraction, exponent, positive, by omega, small⟩
    · rename_i narrow
      exact iff_of_false (by simp) fun given => narrow (by omega)
  · rename_i other
    split at denotes
    · rename_i negative
      cases denotes
      rw [ofNumber?_integer float, if_neg (by omega)]
      refine iff_of_false (by simp) fun given => ?_
      rw [negative.1.1.2] at given
      exact Bool.noConfusion given.2.2.1
    · obtain ⟨m, _, rfl⟩ := Option.map_eq_some_iff.mp denotes
      rw [ofNumber?_real float]
      refine iff_of_false (by simp) fun given => other ?_
      exact ⟨⟨⟨given.1, given.2.1⟩, given.2.2.1⟩, given.2.2.2.2⟩

end ScalarType

/-- Relations that agree on the left list relate it to the same lists. -/
private theorem forall₂_congr_of_mem {α β : Type} {R S : α → β → Prop} {l : List α} {l' : List β}
    (same : ∀ a ∈ l, ∀ b, R a b ↔ S a b) : l.Forall₂ R l' ↔ l.Forall₂ S l' := by
  induction l generalizing l' with
  | nil => simp only [List.forall₂_nil_left_iff]
  | cons a l ih =>
    have rest (l' : List β) := @ih l' fun a member => same a (List.mem_cons_of_mem _ member)
    simp only [List.forall₂_cons_left_iff, rest, same a List.mem_cons_self]

namespace Schema
variable {s : Schema} {t : ScalarType} {field : FieldDef}

private theorem scalarOfJson?_of_number {type : FieldType} {json : Json}
    (scalar : s.scalarType? type = some t) (number : json.number?.isSome) :
    s.scalarOfJson? type json = t.ofNumber? json := by
  rw [scalarOfJson?, scalar, Option.bind_some]
  cases json with
  | integer _ | real _ => rfl
  | null | bool _ | string _ | array _ | object _ => cases number

private theorem elementsOfJson_of_numbers {e : ElementType} {items : List Json} {values : List Value}
    (scalar : s.elementScalarType? e = some t) (numbers : ∀ item ∈ items, item.number?.isSome) :
    s.elementsOfJson field e t items = .ok values ↔
      items.Forall₂ (fun item v => t.ofNumber? item = some v) values := by
  have asField : s.scalarType? e.asField = some t := by
    cases e <;> exact scalar
  rw [elementsOfJson_eq_ok_iff scalar]
  exact forall₂_congr_of_mem fun item member v => by
    rw [scalarOfJson?_of_number asField (numbers item member)]

/-- A struct is read if its members are, and it has no others. -/
theorem structOfJson_eq_ok_iff {id : Nat} {d : StructDef} {object : List (String × Json)}
    {values : List Value} (known : s.structs[id]? = some d)
    (named : ∀ m ∈ object, (d.memberId? m.1).isSome) :
    s.structOfJson field id (.object object) = .ok values ↔ d.members.Forall₂ (fun m v =>
      ∃ item, Json.member? m.name object = some item ∧
        s.scalarOfJson? (.scalar m.type) item = some v) values := by
  have unnamed : object.find? (fun m => (d.memberId? m.1).isNone) = none :=
    List.find?_eq_none.mpr fun m member => by
      obtain ⟨i, found⟩ := Option.isSome_iff_exists.mp (named m member)
      simp [found]
  simp only [structOfJson, known, unnamed, mapM_eq_ok_iff]
  refine forall₂_congr_of_mem fun m _ v => ?_
  cases Json.member? m.name object with
  | none => simp
  | some item => cases read : s.scalarOfJson? (.scalar m.type) item <;> simp [read]

end Schema

namespace ScalarType

/-- Where a floating-point number is asked for, the number alone decides what is taken. Only integers held as
such are refused, and of them only those that no `long` has a value for. -/
theorem numbers_of_format {t : ScalarType} {f : Format} (float : t.format? = some f) : t.Numbers f where
  refused _ _ := ofNumber?_eq_none_iff float
  nearest _ _ := ofNumber?_eq_nearest float
  exact bits x denotes nonzero := by rw [Format.nearest_eq denotes nonzero, value_mod float]
  literal _ _ := ofNumber?_literal float
  field _ _ _ := Schema.scalarOfJson?_of_number
  elements _ _ _ _ scalar numbers _ := Schema.elementsOfJson_of_numbers scalar numbers
  members _ _ _ _ _ known named _ := Schema.structOfJson_eq_ok_iff known named

/-- One and a half times two and the integer three. -/
theorem numbers_three : (Json.integer 3).number? = (Json.real 0x4008000000000000).number? ∧
    ScalarType.float.ofNumber? (.integer 3) = ScalarType.float.ofNumber? (.real 0x4008000000000000) := by
  have three : Format.double.number? 0x4008000000000000 = some ((3 : Int) : ℚ) :=
    Format.toInt?_eq_some_iff.mp (by decide +kernel)
  have taken := (numbers_of_format (t := .float) rfl).nearest
  refine ⟨three.symm, ?_⟩
  rw [taken (.integer 3) _ rfl (by norm_num) (show ¬ 2 ^ 63 ≤ 3 by decide),
    taken (.real 0x4008000000000000) _ three (by norm_num) id]

/-- 2 ^ 63 is refused as an integer, though it is taken as a binary64 number and as a text. -/
theorem ofNumber?_wide :
    (Json.integer (2 ^ 63)).number? = (Json.real 0x43E0000000000000).number? ∧
      ScalarType.double.ofNumber? (.integer (2 ^ 63)) = none ∧
        ScalarType.double.ofNumber? (.real 0x43E0000000000000) =
          some (ScalarType.double.value 0x43E0000000000000) ∧
        ScalarType.double.parse? "9223372036854775808" =
          some (ScalarType.double.value 0x43E0000000000000) := by
  have number : Format.double.number? 0x43E0000000000000 = some ((2 ^ 63 : Int) : ℚ) :=
    Format.toInt?_eq_some_iff.mp (by decide +kernel)
  exact ⟨number.symm, by decide +kernel, by decide +kernel, by decide +kernel⟩

end ScalarType
end FlatTable

import Mathlib.Data.List.Nodup
import FlatTable.Convert.Import
import FlatTable.Convert.Render
import FlatTable.Proofs.Bytes
import FlatTable.Proofs.Scalar.Rounding
import FlatTable.Proofs.Schema.Valid

/-! Scalars and enums in JSON: what is shown of a value is read as the value again. -/
namespace FlatTable
open Ieee

def Value.isFinite (v : Value) : Bool :=
  match v.type.format? with
  | some f => f.isFinite v.pattern
  | none => true

/-- The names of enumerators come without scopes. -/
def Schema.Unscoped (s : Schema) : Prop :=
  ∀ e ∈ s.enums.toList, ∀ v ∈ e.values, ¬ [':', ':'] <:+: v.name.toList

namespace Text

private theorem lastScope?_of_unscoped {cs : List Char} (unscoped : ¬ [':', ':'] <:+: cs) :
    lastScope? cs = none := by
  induction cs with
  | nil => rfl
  | cons c cs ih =>
    rw [lastScope?, ih fun inside => unscoped (List.infix_cons inside)]
    rintro name rfl rfl
    exact unscoped ⟨[], name, rfl⟩

theorem stripScope_of_unscoped {name : String} (unscoped : ¬ [':', ':'] <:+: name.toList) :
    stripScope name = name := by
  rw [stripScope, lastScope?_of_unscoped unscoped]

end Text

namespace ScalarType
variable {t : ScalarType} {v : Value}

@[simp] theorem type_value (t : ScalarType) (n : Nat) : (t.value n).type = t := rfl

theorem type_of_ofLong? {i : Int} (h : t.ofLong? i = some v) : v.type = t := by
  unfold ofLong? at h
  split at h
  · cases h
    rfl
  · split at h
    · cases h
      rfl
    · cases h

theorem type_of_ofULong? {n : Nat} (h : t.ofULong? n = some v) : v.type = t := by
  unfold ofULong? at h
  split at h
  · cases h
    rfl
  · split at h
    · exact type_of_ofLong? h
    · cases h

theorem type_of_ofDouble? {bits : Nat} (h : t.ofDouble? bits = some v) : v.type = t := by
  unfold ofDouble? at h
  split at h
  · cases h
    rfl
  · obtain ⟨i, _, h⟩ := Option.bind_eq_some_iff.mp h
    split at h
    · exact type_of_ofULong? h
    · exact type_of_ofLong? h

theorem type_of_parse? {text : String} (h : t.parse? text = some v) : v.type = t := by
  unfold parse? at h
  dsimp only at h
  split at h
  · split at h
    · cases h
      rfl
    · split at h
      · cases h
        rfl
      · obtain ⟨i, _, h⟩ := Option.bind_eq_some_iff.mp h
        exact type_of_ofLong? h
  · obtain ⟨bits, _, h⟩ := Option.bind_eq_some_iff.mp h
    exact type_of_ofDouble? h
  · obtain ⟨bits, _, h⟩ := Option.bind_eq_some_iff.mp h
    exact type_of_ofDouble? h
  · obtain ⟨n, _, h⟩ := Option.bind_eq_some_iff.mp h
    exact type_of_ofULong? h
  · obtain ⟨i, _, h⟩ := Option.bind_eq_some_iff.mp h
    exact type_of_ofLong? h

theorem type_of_ofNumber? {json : Json} (h : t.ofNumber? json = some v) : v.type = t := by
  unfold ofNumber? at h
  split at h
  · split at h
    · exact type_of_ofULong? h
    · exact type_of_ofLong? h
  · exact type_of_ofDouble? h
  · cases h

end ScalarType

namespace Value
variable {v : Value}

/-- An integer is in the range of its type, and tells its pattern. -/
theorem integer_bounds (integer : v.type.isInteger) :
    v.type.least ≤ v.integer ∧ v.integer < v.type.bound ∧
      (v.integer % v.type.patterns).toNat = v.pattern := by
  obtain ⟨t, pattern, fits⟩ := v
  have patterns : t.patterns = 2 ^ (8 * t.width) := by
    cases t with
    | bool => cases integer
    | _ => rfl
  obtain ⟨k, bits⟩ : ∃ k, 8 * t.width = k + 1 :=
    Nat.exists_eq_succ_of_ne_zero (by have := t.width_pos; omega)
  simp only [Value.integer, ScalarType.least, ScalarType.bound, patterns, bits, Nat.add_sub_cancel,
    Nat.pow_eq] at fits ⊢
  have double := Nat.pow_succ 2 k
  have high : pattern.testBit k = decide (2 ^ k ≤ pattern) := by
    have small : pattern / 2 ^ k < 2 := Nat.div_lt_of_lt_mul (by omega)
    rw [Nat.testBit_eq_decide_div_mod_eq, Nat.mod_eq_of_lt small]
    congr 1
    rw [eq_iff_iff, ← Nat.div_pos_iff.trans (and_iff_right (Nat.two_pow_pos k))]
    omega
  rw [high]
  generalize 2 ^ (k + 1) = patterns at *
  cases t.isSigned with
  | false =>
    simp only [Bool.false_and, Bool.false_eq_true, if_false]
    rw [Int.emod_eq_of_lt (by omega) (by omega)]
    omega
  | true =>
    simp only [Bool.true_and, decide_eq_true_eq, if_true]
    split
    · rw [Int.sub_emod_right, Int.emod_eq_of_lt (by omega) (by omega)]
      omega
    · rw [Int.emod_eq_of_lt (by omega) (by omega)]
      omega

/-- Only what is not finite has no form in JSON. -/
theorem toJson_eq_null_iff : v.toJson = .null ↔ v.isFinite = false := by
  unfold toJson isFinite
  cases v.type.format? with
  | some f => dsimp only; split <;> simp_all
  | none => dsimp only; split <;> simp

theorem isFinite_of_format? (exact : v.type.format? = none) : v.isFinite := by
  rw [isFinite, exact]

/-- An integer of a type is a value of it. -/
theorem ofLong?_integer (integer : v.type.isInteger) : v.type.ofLong? v.integer = some v := by
  obtain ⟨least, bound, pattern⟩ := integer_bounds integer
  have exact : v.type.format? = none := by
    cases type : v.type <;> simp_all [ScalarType.isInteger, ScalarType.format?]
  rw [ScalarType.ofLong?, exact]
  dsimp only
  rw [if_pos ⟨least, bound⟩, pattern, type_value_pattern]

/-- What is finite is read as it is shown. -/
private theorem ofNumber?_toJson (finite : v.isFinite) (number : v.type ≠ .bool) :
    v.type.ofNumber? v.toJson = some v := by
  cases format : v.type.format? with
  | some f =>
    rw [isFinite, format] at finite
    dsimp only at finite
    simp only [toJson, format, if_pos finite, ScalarType.ofNumber?, ScalarType.ofDouble?]
    split
    · rw [type_value_pattern]
    · have single : v.type = .float ∧ f = Format.single := by
        cases type : v.type <;> simp_all [ScalarType.format?]
      rw [single.2] at finite ⊢
      have pattern := v.fits
      rw [single.1] at pattern
      rw [Format.convert_double_single pattern finite, type_value_pattern]
  | none =>
    have shown : v.toJson = .integer v.integer := by
      simp only [toJson, format]
    have integer : v.type.isInteger := by
      cases type : v.type <;> simp_all [ScalarType.isInteger, ScalarType.format?]
    have long := ofLong?_integer integer
    rw [shown, ScalarType.ofNumber?]
    split
    · rename_i positive
      unfold ScalarType.ofULong?
      split
      · rename_i wide
        have pattern : v.integer = v.pattern := by simp [Value.integer, wide, ScalarType.isSigned]
        rw [pattern, Int.toNat_natCast, type_value_pattern]
      · rename_i narrow
        have bound := (integer_bounds integer).2.1
        have most : v.type.bound ≤ 2 ^ 63 := by
          cases type : v.type with
          | ulong => exact absurd type narrow
          | float | double => simp [type, ScalarType.isInteger] at integer
          | _ => decide
        rw [Nat.pow_eq, if_pos (by omega), Int.toNat_of_nonneg positive, long]
    · exact long

end Value

namespace Schema
variable {s : Schema} {type : FieldType} {v : Value}

theorem type_of_scalarOfJson? {json : Json} (h : s.scalarOfJson? type json = some v) :
    s.scalarType? type = some v.type := by
  obtain ⟨t, scalar, value⟩ := Option.bind_eq_some_iff.mp h
  rw [scalar, Option.some.injEq, eq_comm]
  split at value
  · split at value
    · cases value
      rfl
    · cases value
  · unfold scalarOfString? at value
    split at value
    · obtain ⟨e, _, value⟩ := Option.bind_eq_some_iff.mp value
      split at value
      · exact ScalarType.type_of_ofLong? value
      · exact ScalarType.type_of_parse? value
    · exact ScalarType.type_of_parse? value
  · exact ScalarType.type_of_ofNumber? value

/-- What is finite is read as it is shown without the names of enumerators. -/
theorem scalarOfJson?_toJson (scalar : s.scalarType? type = some v.type)
    (finite : v.isFinite) : s.scalarOfJson? type v.toJson = some v := by
  rw [scalarOfJson?, scalar, Option.bind_some]
  by_cases isBool : v.type = .bool
  · obtain ⟨t, pattern, fits⟩ := v
    obtain rfl : t = .bool := isBool
    have shown : Value.toJson ⟨.bool, pattern, fits⟩ = .bool (pattern ≠ 0) := rfl
    have same : min (decide (pattern ≠ 0)).toNat 1 = pattern := by
      have two : pattern < 2 := fits
      rcases Nat.lt_succ_iff_lt_or_eq.mp two with small | rfl
      · obtain rfl : pattern = 0 := by omega
        rfl
      · rfl
    rw [shown]
    simp only [if_true, ScalarType.value, ScalarType.normalize, same]
  · have read := Value.ofNumber?_toJson finite isBool
    split
    · rename_i shown
      rw [shown] at read
      cases read
    · rename_i shown
      rw [shown] at read
      cases read
    · exact read

/-- A name without scopes leads back to the value that has it. -/
private theorem valueOf?_of_nameOf? {e : EnumDef} (valid : e.Valid)
    (unscoped : ∀ v ∈ e.values, ¬ [':', ':'] <:+: v.name.toList) {value : Int} {name : String}
    (named : e.nameOf? value = some name) : e.valueOf? name = some value := by
  obtain ⟨v, found, rfl⟩ := Option.map_eq_some_iff.mp named
  have member := List.mem_of_find?_eq_some found
  obtain rfl : v.value = value := by simpa using List.find?_some found
  rw [EnumDef.valueOf?, Text.stripScope_of_unscoped (unscoped v member)]
  have isSome : (e.values.find? fun w => w.name == v.name).isSome :=
    List.find?_isSome.mpr ⟨v, member, beq_self_eq_true _⟩
  obtain ⟨w, first⟩ := Option.isSome_iff_exists.mp isSome
  have same : w.name = v.name := by simpa using List.find?_some first
  rw [first, List.inj_on_of_nodup_map valid.distinct (List.mem_of_find?_eq_some first) member same,
    Option.map_some]

/-- What is finite is read as it is shown. -/
theorem scalarOfJson?_scalarJson (valid : s.Valid) (unscoped : s.Unscoped)
    (scalar : s.scalarType? type = some v.type) (finite : v.isFinite) :
    s.scalarOfJson? type (s.scalarJson (enumOf? type) v) = some v := by
  rw [scalarJson]
  split
  · rename_i name named
    obtain ⟨e, enum, named⟩ := Option.bind_eq_some_iff.mp named
    obtain ⟨id, isEnum, known⟩ := Option.bind_eq_some_iff.mp enum
    obtain ⟨value, long, named⟩ := Option.bind_eq_some_iff.mp named
    cases type with
    | enum id' =>
      obtain rfl : id' = id := Option.some.inj isEnum
      have member : e ∈ s.enums.toList := Array.mem_toList_iff.mpr (Array.mem_of_getElem? known)
      have underlying : e.underlying = v.type := by
        simpa [scalarType?, underlying?, known] using scalar
      obtain rfl : v.integer = value := by
        unfold Value.asLong? at long
        split at long
        · cases long
        · split at long
          · exact Option.some.inj long
          · cases long
      have integer : v.type.isInteger := underlying ▸ (valid.enums e member).integer
      rw [scalarOfJson?, scalar, Option.bind_some]
      dsimp only
      rw [scalarOfString?, known, Option.bind_some,
        valueOf?_of_nameOf? (valid.enums e member) (unscoped e member) named]
      exact Value.ofLong?_integer integer
    | vector e => cases scalar
    | scalar t | string | table id' | struct id' => cases isEnum
  · exact scalarOfJson?_toJson scalar finite

/-- Only what is not finite is shown as `null`. -/
theorem scalarJson_eq_null_iff (enum : Option Nat) :
    s.scalarJson enum v = .null ↔ v.isFinite = false := by
  rw [scalarJson]
  split
  · rename_i name named
    obtain ⟨e, _, named⟩ := Option.bind_eq_some_iff.mp named
    obtain ⟨value, long, _⟩ := Option.bind_eq_some_iff.mp named
    have exact : v.type.format? = none := by
      cases format : v.type.format? with
      | some f => simp [Value.asLong?, format] at long
      | none => rfl
    simp [Value.isFinite_of_format? exact]
  · exact Value.toJson_eq_null_iff

end Schema
end FlatTable

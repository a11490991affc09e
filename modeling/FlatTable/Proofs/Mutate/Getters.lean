import FlatTable.Proofs.Mutate.Cells

/-! Reading by the place in the vtable, as is done where the schema is known beforehand: it gives what the
schema's own reading gives. -/
namespace FlatTable
open Layout

namespace Buffer
variable {b : Buffer} {p : Nat}

/-- A byte is its own value. -/
theorem getElem?_of_value? {byte : UInt8}
    (read : b.value? .ubyte p = some (ScalarType.ubyte.value byte.toNat)) : b[p]? = some byte := by
  obtain ⟨n, number, same⟩ := Option.map_eq_some_iff.mp read
  obtain ⟨bytes, slice, rfl⟩ := nat?_eq_some_iff.mp number
  obtain ⟨byte', rfl⟩ := List.length_eq_one_iff.mp (slice?_eq_some_iff.mp slice).1
  have fits (x : UInt8) : ScalarType.ubyte.normalize x.toNat = x.toNat :=
    ScalarType.normalize_of_lt (t := .ubyte) x.toNat_lt
  have pattern : ScalarType.ubyte.normalize byte'.toNat = ScalarType.ubyte.normalize byte.toNat :=
    congrArg Value.pattern same
  rw [fits, fits, UInt8.toNat_inj] at pattern
  exact pattern ▸ getElem?_of_slice? slice

theorem toList_extract_of_value? {bytes : List UInt8} (each : ∀ (j : Nat) byte, bytes[j]? = some byte →
      b.value? .ubyte (p + j * ScalarType.ubyte.width) = some (ScalarType.ubyte.value byte.toNat)) :
    (b.extract p (p + bytes.length)).toList = bytes := by
  refine List.ext_getElem? fun j => ?_
  rw [Array.getElem?_toList, Array.getElem?_extract]
  cases found : bytes[j]? with
  | none =>
    have outside : bytes.length ≤ j := List.getElem?_eq_none_iff.mp found
    rw [if_neg (by omega)]
  | some byte =>
    have inside : j < bytes.length := (List.getElem?_eq_some_iff.mp found).1
    have here := getElem?_of_value? (each j byte found)
    have inBuffer := (Array.getElem?_eq_some_iff.mp here).1
    simp only [ScalarType.width, Nat.mul_one] at here inBuffer
    rw [if_pos (by omega), here]

end Buffer

namespace TableView
variable {s : Schema} {t : TableView} {id i : Nat}

/-- An element of a vector of scalars. -/
theorem cell?_of_vector {b : Buffer} {start length j : Nat} {type : ScalarType}
    (read : t.field s id i = .vector ⟨b, start, length, .scalar type, some type⟩) (inside : j < length) :
    t.cell? s id (.element i j) = b.value? type (start + j * type.width) := by
  simp only [cell?, read, FieldVector.get?, if_pos inside]
  cases b.value? type (start + j * type.width) <;> rfl

variable {f : FieldDef} (field : s.field? id i = some f)
  (live : f.deprecated = false)
include field live

/-- A scalar that has a default. -/
theorem cell?_eq_scalar {default : Value} (scalar : s.scalarType? f.type = some default.type)
    (declared : s.fieldDefault? id i = some default) :
    t.cell? s id (.field i) = some (t.scalar (slotOf i) default) := by
  have place : t.fieldPosition? (slotOf i) = t.buffer.fieldPosition? t.position i := rfl
  rw [cell?, field_of_scalar field live scalar, scalarField?, TableView.scalar, scalar?, place]
  cases (t.buffer.fieldPosition? t.position i).bind (t.buffer.value? default.type) with
  | none => rw [declared]; rfl
  | some v => rfl

theorem field_eq_string (isString : f.type = .string) :
    t.field s id i = ((t.string? (slotOf i)).map .string).getD .absent := by
  have place : t.fieldPosition? (slotOf i) = t.buffer.fieldPosition? t.position i := rfl
  rw [field_of_stored field live (by rw [isString]; rfl), isString, string?, place]
  cases t.buffer.fieldPosition? t.position i <;> rfl

theorem field_eq_vector {type : ScalarType} (isVector : f.type = .vector (.scalar type)) :
    t.field s id i = ((t.vector? (slotOf i) (.scalar type)).map fun v =>
      FieldValue.vector ⟨v.buffer, v.start, v.length, .scalar type, some type⟩).getD .absent := by
  have place : t.fieldPosition? (slotOf i) = t.buffer.fieldPosition? t.position i := rfl
  have width : s.elementWidth (.scalar type) = type.width := rfl
  rw [field_of_stored field live (by rw [isVector]; rfl), isVector, vector?, place]
  cases t.buffer.fieldPosition? t.position i with
  | none => rfl
  | some holder =>
    simp only [Option.bind_some, stored?, Option.bind_eq_bind]
    cases t.buffer.target? holder with
    | none => rfl
    | some target =>
      simp only [Option.bind_some, FieldVector.at?, width, ElementKind.width, Option.bind_eq_bind]
      cases t.buffer.elements? type.width target <;> rfl

end TableView
end FlatTable

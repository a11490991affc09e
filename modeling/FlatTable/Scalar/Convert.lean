import FlatTable.Decimal.Read
import FlatTable.Scalar.Value

/-! Numbers and texts as values of a given type. Integers must fit; for the floating-point types the
nearest number is taken. -/
namespace FlatTable
open Ieee

namespace ScalarType

def least (t : ScalarType) : Int := if t.isSigned then -(Nat.pow 2 (8 * t.width - 1)) else 0

def bound (t : ScalarType) : Int := if t.isSigned then Nat.pow 2 (8 * t.width - 1) else t.patterns

def ofLong? (t : ScalarType) (i : Int) : Option Value :=
  match t.format? with
  | some f => some (t.value (f.ofInt i))
  | none => if t.least ≤ i ∧ i < t.bound then some (t.value (i % t.patterns).toNat) else none

/-- An integer in the range of `ulong` as a value. Only `ulong` itself takes one above the range of
`long`. -/
def ofULong? (t : ScalarType) (n : Nat) : Option Value :=
  match t with
  | .ulong => some (t.value n)
  | _ => if n < Nat.pow 2 63 then t.ofLong? n else none

/-- A binary64 number as a value. For the other types it must be an integer; it is brought into the
range of `long`, or of `ulong` when it is above 2 ^ 63. -/
def ofDouble? (t : ScalarType) (bits : Nat) : Option Value :=
  match t.format? with
  | some f => some (t.value (if f = Format.double then bits else Format.double.convert f bits))
  | none =>
    (Format.double.toInt? bits).bind fun i =>
      if Nat.pow 2 63 < i then t.ofULong? (min i (Nat.pow 2 64 - 1)).toNat
      else t.ofLong? (max (-(Nat.pow 2 63)) (min i (Nat.pow 2 63 - 1)))

def long? (cs : List Char) : Option Int :=
  (Decimal.signed? cs).bind fun i =>
    if -(Nat.pow 2 63) ≤ i ∧ i < Nat.pow 2 63 then some i else none

def ulong? (cs : List Char) : Option Nat :=
  (Decimal.unsigned? cs).bind fun n => if n < Nat.pow 2 64 then some n else none

def parse? (t : ScalarType) (text : String) : Option Value :=
  let cs := Text.trim text.toList
  match t with
  | .bool =>
    if cs = "true".toList then some (t.value 1)
    else if cs = "false".toList then some (t.value 0)
    else (long? cs).bind t.ofLong?
  | .float | .double => (Decimal.real? cs).bind t.ofDouble?
  | .ulong => (ulong? cs).bind t.ofULong?
  | _ => (long? cs).bind t.ofLong?

end ScalarType
end FlatTable

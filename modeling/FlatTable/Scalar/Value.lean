import FlatTable.Bytes
import FlatTable.Decimal.Layout
import FlatTable.Scalar.Type

/-! Scalar values: a type and a bit pattern of that type. -/
namespace FlatTable
open Ieee

/-- Integers are kept in two's complement and floating-point numbers as their interchange pattern,
so a NaN keeps its payload and a zero its sign. -/
structure Value where
  type : ScalarType
  pattern : Nat
  fits : pattern < type.patterns
  deriving DecidableEq

namespace ScalarType

def value (t : ScalarType) (n : Nat) : Value := ⟨t, t.normalize n, t.normalize_lt n⟩

def zero (t : ScalarType) : Value := t.value 0

def format? : ScalarType → Option Format
  | float => some Format.single
  | double => some Format.double
  | _ => none

end ScalarType

namespace Value

def width (v : Value) : Nat := v.type.width

def bytes (v : Value) : List UInt8 := Bytes.encode v.type.width v.pattern

theorem length_bytes (v : Value) : v.bytes.length = v.type.width := Bytes.length_encode _ _

def integer (v : Value) : Int :=
  if v.type.isSigned && v.pattern.testBit (8 * v.type.width - 1) then
    (v.pattern : Int) - v.type.patterns
  else v.pattern

def asLong? (v : Value) : Option Int :=
  match v.type.format? with
  | some _ => none
  | none => if v.integer < Nat.pow 2 63 then some v.integer else none

/-- Equality of the numbers denoted: of floating-point numbers, both zeros are equal and a NaN is
not equal to itself. -/
def numEq (a b : Value) : Bool :=
  a.type == b.type &&
    match a.type.format? with
    | some f => f.numEq a.pattern b.pattern
    | none => a.pattern == b.pattern

def text (v : Value) : String :=
  match v.type.format? with
  | some f => Decimal.plain f v.pattern
  | none =>
    match v.type with
    | .bool => if v.pattern = 0 then "false" else "true"
    | _ => toString v.integer

end Value

namespace Buffer

def value? (b : Buffer) (t : ScalarType) (pos : Nat) : Option Value :=
  (b.nat? pos t.width).map t.value

end Buffer
end FlatTable

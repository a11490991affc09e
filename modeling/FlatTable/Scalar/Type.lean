import FlatTable.Text.Blank
import FlatTable.Text.LowerCase

/-! The fixed-width types that fields, vector elements and struct members can have. -/
namespace FlatTable

inductive ScalarType where
  | bool
  | byte
  | ubyte
  | short
  | ushort
  | int
  | uint
  | long
  | ulong
  | float
  | double
  deriving DecidableEq, Repr

namespace ScalarType

def all : List ScalarType :=
  [bool, byte, ubyte, short, ushort, int, uint, long, ulong, float, double]

def width : ScalarType → Nat
  | bool | byte | ubyte => 1
  | short | ushort => 2
  | int | uint | float => 4
  | long | ulong | double => 8

def isInteger : ScalarType → Bool
  | bool | float | double => false
  | _ => true

def isSigned : ScalarType → Bool
  | byte | short | int | long => true
  | _ => false

def name : ScalarType → String
  | bool => "bool"
  | byte => "byte"
  | ubyte => "ubyte"
  | short => "short"
  | ushort => "ushort"
  | int => "int"
  | uint => "uint"
  | long => "long"
  | ulong => "ulong"
  | float => "float"
  | double => "double"

def sizedName : ScalarType → String
  | bool => "bool"
  | byte => "int8"
  | ubyte => "uint8"
  | short => "int16"
  | ushort => "uint16"
  | int => "int32"
  | uint => "uint32"
  | long => "int64"
  | ulong => "uint64"
  | float => "float32"
  | double => "float64"

/-- The type with this name, whatever the case of its letters and the blanks around it. -/
def ofName? (text : String) : Option ScalarType :=
  let word := Text.lowerAscii (Text.trimString text)
  all.find? fun t => t.name == word || t.sizedName == word

def patterns : ScalarType → Nat
  | bool => 2
  | t => Nat.pow 2 (8 * t.width)

/-- The bit pattern that a stored number stands for. Every non-zero boolean is true. -/
def normalize : ScalarType → Nat → Nat
  | bool, n => min n 1
  | t, n => n % t.patterns

theorem normalize_lt (t : ScalarType) (n : Nat) : t.normalize n < t.patterns := by
  cases t with
  | bool =>
    simp only [normalize, patterns]
    omega
  | _ => exact Nat.mod_lt n (by decide)

end ScalarType
end FlatTable

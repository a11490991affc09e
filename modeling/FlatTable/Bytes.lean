/-! Byte buffers: little-endian numbers, and reads and writes that stay inside the buffer. -/
namespace FlatTable

abbrev Buffer := Array UInt8

namespace Bytes

/-- The lowest `width` bytes of a number, the least significant first. -/
def encode : Nat → Nat → List UInt8
  | 0, _ => []
  | width + 1, n => UInt8.ofNat n :: encode width (n / 256)

def decode : List UInt8 → Nat
  | [] => 0
  | b :: bs => b.toNat + 256 * decode bs

theorem length_encode (width n : Nat) : (encode width n).length = width := by
  induction width generalizing n with
  | zero => rfl
  | succ width ih => simp [encode, ih]

end Bytes

namespace Buffer

def slice? (b : Buffer) (pos length : Nat) : Option (List UInt8) :=
  if pos + length ≤ b.size then some (b.extract pos (pos + length)).toList else none

def nat? (b : Buffer) (pos width : Nat) : Option Nat := (b.slice? pos width).map Bytes.decode

def write? (b : Buffer) (pos : Nat) (bytes : List UInt8) : Option Buffer :=
  if pos + bytes.length ≤ b.size then
    some (b.extract 0 pos ++ bytes.toArray ++ b.extract (pos + bytes.length) b.size)
  else none

end Buffer
end FlatTable

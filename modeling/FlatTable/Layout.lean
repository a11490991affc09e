import FlatTable.Scalar.Value

/-! How objects find each other in a buffer. A reference is an unsigned distance forward from where
it is stored. A table starts with the signed distance back to its vtable, and the vtable holds its
own size, the size of the table and for each field the distance from the table, zero for an absent
one. -/
namespace FlatTable.Layout

/-- The width of a reference, of the distance to a vtable and of the length of a vector. -/
def offsetSize : Nat := 4

def slotSize : Nat := 2

def vtableHeader : Nat := 4

def identifierSize : Nat := 4

/-- Distances are signed 32-bit numbers, so no buffer is larger. -/
def maxBufferSize : Nat := 0x7FFFFFFF

def maxInline : Nat := 0xFFFF

def maxFields : Nat := (maxInline - vtableHeader) / slotSize

def slotOf (field : Nat) : Nat := vtableHeader + field * slotSize

def fieldOf (slot : Nat) : Nat := (slot - vtableHeader) / slotSize

/-- How many bytes are missing to a multiple of `alignment`, a power of two. The numbers are 64 bits
wide, so the size is negated by subtracting it from zero. -/
def padding (size alignment : Nat) : Nat :=
  ((0 - UInt64.ofNat size) &&& (UInt64.ofNat alignment - 1)).toNat

end FlatTable.Layout

namespace FlatTable.Buffer
open Layout

def rootPosition? (b : Buffer) : Option Nat := b.nat? 0 offsetSize

def identifier? (b : Buffer) : Option (List UInt8) := b.slice? offsetSize identifierSize

def hasIdentifier (b : Buffer) (identifier : List UInt8) : Bool := b.identifier? == some identifier

def target? (b : Buffer) (pos : Nat) : Option Nat := (b.nat? pos offsetSize).map (pos + ·)

def vtable? (b : Buffer) (table : Nat) : Option Nat :=
  (b.value? .int table).bind fun back =>
    if back.integer ≤ table then some (table - back.integer).toNat else none

def slotPosition? (b : Buffer) (table slot : Nat) : Option Nat :=
  if slot < vtableHeader then none
  else do
    let vtable ← b.vtable? table
    let size ← b.nat? vtable slotSize
    if slot + slotSize ≤ size then
      let distance ← b.nat? (vtable + slot) slotSize
      if distance = 0 then none else some (table + distance)
    else none

def fieldPosition? (b : Buffer) (table field : Nat) : Option Nat :=
  b.slotPosition? table (slotOf field)

end FlatTable.Buffer

import FlatTable.Builder.Args
import FlatTable.Builder.Storage

/-! A builder fills its storage from the end to the front. An object is written before what refers
to it, so all references point forward. -/
namespace FlatTable

structure Block where
  bytes : List UInt8
  size : Nat
  size_eq : size = bytes.length

namespace Block

def ofList (bytes : List UInt8) : Block := ⟨bytes, bytes.length, rfl⟩

def push (b : Block) (front : List UInt8) : Block :=
  ⟨front ++ b.bytes, front.length + b.size, by simp [b.size_eq]⟩

def append (b : Block) (back : List UInt8) : Block :=
  ⟨b.bytes ++ back, b.size + back.length, by simp [b.size_eq]⟩

def drop (b : Block) (n : Nat) : Block := ⟨b.bytes.drop n, b.size - n, by simp [b.size_eq]⟩

def overwrite (b : Block) (pos : Nat) (bytes : List UInt8) : Block :=
  if h : pos + bytes.length ≤ b.size then
    ⟨b.bytes.take pos ++ bytes ++ b.bytes.drop (pos + bytes.length), b.size, by
      have := b.size_eq
      simp only [List.length_append, List.length_take, List.length_drop]
      omega⟩
  else b

end Block

/-- The bytes not yet used lie in front of the used ones; the nearest comes first in `free`. The
buffer's own padding at its very end is `trailingPad` bytes. -/
structure Builder where
  free : Block
  used : Block
  growth : Growth
  requests : Nat
  minAlign : Nat
  forceDefaults : Bool
  trailingPad : Nat
  placed : List Placed

/-- A step of building. A step that fails keeps what it has done to the storage. -/
abbrev Build := ExceptT BuildError (StateM Builder)

namespace Builder

def ofStorage (s : Storage) : Builder :=
  ⟨.ofList s.bytes.reverse, .ofList [], s.growth, s.requests, 1, false, 0, []⟩

def withCapacity (capacity : Nat) : Builder := ofStorage (.zeros capacity .standard)

def usedSpace (b : Builder) : Nat := b.used.size

/-- Asks for more storage until `want` bytes are free, or until the storage refuses. -/
def makeRoom (want : Nat) (b : Builder) : Except Nat Unit × Builder :=
  if _h : b.free.size < want then
    match b.growth.answer b.requests (b.free.size + b.used.size) with
    | .error size => (.error size, { b with requests := b.requests + 1 })
    | .ok front =>
      makeRoom want
        { b with free := b.free.append front.bytes.reverse, requests := b.requests + 1 }
  else (.ok (), b)
termination_by want - b.free.size
decreasing_by
  have := List.length_pos_iff.mpr front.nonempty
  simp only [Block.append, List.length_unattach, List.length_reverse, List.length_attach]
  omega

/-- Takes the nearest free bytes. The result is what they held, in the order of the buffer. -/
def claim (want : Nat) : Build (List UInt8) := do
  let b ← get
  if Layout.maxBufferSize < b.used.size + want then throw (.bufferTooLarge (b.used.size + want))
  match makeRoom want b with
  | (.error size, b) =>
    set b
    throw (.allocationFailed size)
  | (.ok _, b) =>
    set { b with free := b.free.drop want }
    return (b.free.bytes.take want).reverse

def push (bytes : List UInt8) : Build Unit := do
  let _ ← claim bytes.length
  modify fun b => { b with used := b.used.push bytes }

def reserve (count : Nat) : Build Unit := do
  let old ← claim count
  modify fun b => { b with used := b.used.push old }

/-- Pads so that `length` more bytes end up at a multiple of `alignment` from the end. -/
def align (length alignment : Nat) : Build Unit := do
  modify fun b => { b with minAlign := max b.minAlign alignment }
  let used := (← get).used.size
  let pad := Layout.padding (used + length) alignment
  if pad ≠ 0 then
    push (List.replicate pad 0)
    if used = 0 then modify fun b => { b with trailingPad := pad }

def pushWord (n : Nat) : Build Unit := do
  align Layout.offsetSize Layout.offsetSize
  push (Bytes.encode Layout.offsetSize n)

def place (kind : ObjectKind) : Build (Ref kind) := do
  let rev := (← get).used.size
  modify fun b => { b with placed := ⟨rev, kind⟩ :: b.placed }
  return ⟨rev⟩

def checkPlaced (p : Placed) : Build Unit := do
  if !p.isAmong (← get).placed then throw (.unplacedOffset p.rev)

def pushReference (rev : Nat) : Build Unit := do
  align Layout.offsetSize Layout.offsetSize
  let used := (← get).used.size + Layout.offsetSize
  match Contract.checkReference rev used with
  | .error v => throw (.contract v)
  | .ok _ => push (Bytes.encode Layout.offsetSize (used - rev))

def pushValue (v : Value) : Build Unit := do
  align v.width v.width
  push v.bytes

/-- The bytes of a struct when the first free byte is at `pos`. -/
def structBytesFrom (pos : Nat) : List Value → List UInt8
  | [] => []
  | v :: vs =>
    let pad := Layout.padding pos v.width
    List.replicate pad 0 ++ v.bytes ++ structBytesFrom (pos + pad + v.width) vs

/-- Writes a struct at a multiple of its alignment. Gaps between members are zero. -/
def pushStruct (d : StructDef) (values : List Value) : Build Unit := do
  align d.size d.alignment
  let body := structBytesFrom 0 values
  push (body ++ List.replicate (d.size - body.length) 0)

end Builder
end FlatTable

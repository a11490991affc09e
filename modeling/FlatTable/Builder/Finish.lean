import FlatTable.Builder.Create

/-! Finishing a buffer: its root and its identifier are written, and the builder is given up. -/
namespace FlatTable

structure Identifier where
  bytes : List UInt8
  length_eq : bytes.length = Layout.identifierSize
  deriving DecidableEq

def Identifier.ofBytes? (bytes : List UInt8) : Option Identifier :=
  if h : bytes.length = Layout.identifierSize then some ⟨bytes, h⟩ else none

/-- A finished buffer in its storage: the bytes from `head` on and before `stop`. -/
structure FinishedBuffer where
  data : Buffer
  allocated : Nat
  head : Nat
  stop : Nat

namespace Builder

/-- Writes the root's reference, and the identifier behind it, so that all objects are aligned. -/
def pushRoot (root : Ref .table) (identifier : Option Identifier) : Build Unit := do
  checkPlaced root.placed
  let tag := (identifier.map Identifier.bytes).getD []
  align (Layout.offsetSize + tag.length) (max (← get).minAlign Layout.offsetSize)
  if identifier.isSome then push tag
  pushReference root.rev

def finished (b : Builder) : FinishedBuffer :=
  let allocated := b.free.size + b.used.size
  ⟨(b.used.bytes.take (b.used.size - b.trailingPad)).toArray, allocated, b.free.size,
    allocated - b.trailingPad⟩

def finish (root : Ref .table) (identifier : Option Identifier) : Build FinishedBuffer := do
  pushRoot root identifier
  return (← get).finished

end Builder

def Build.runFrom {α : Type} (b : Builder) (steps : Build α) : Except BuildError α × Builder :=
  (ExceptT.run steps).run b

end FlatTable

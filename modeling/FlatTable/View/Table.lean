import FlatTable.Builder.Object
import FlatTable.Text.Utf8

/-! Reading a buffer in place. Every read stays inside the buffer, and what cannot be read is
absent. -/
namespace FlatTable

structure TableView where
  buffer : Buffer
  position : Nat
  deriving DecidableEq

inductive Item where
  | scalar (v : Value)
  | string (s : String)
  | table (t : TableView)
  deriving DecidableEq

/-- The results of `read` at `index` and the following numbers, `count` at most, up to the first
that has none. -/
def readWhile {α : Type} (read : Nat → Option α) (index : Nat) : Nat → List α
  | 0 => []
  | count + 1 =>
    match read index with
    | some a => a :: readWhile read (index + 1) count
    | none => []

def ElementKind.width : ElementKind → Nat
  | .scalar t => t.width
  | .string | .table => Layout.offsetSize

namespace Buffer
open Layout

def string? (b : Buffer) (pos : Nat) : Option String := do
  let start ← b.target? pos
  let length ← b.nat? start offsetSize
  Text.decodeUtf8? (← b.slice? (start + offsetSize) length)

def table? (b : Buffer) (pos : Nat) : Option TableView :=
  (b.target? pos).bind fun target => if target < b.size then some ⟨b, target⟩ else none

def item? (b : Buffer) (kind : ElementKind) (pos : Nat) : Option Item :=
  match kind with
  | .scalar t => (b.value? t pos).map .scalar
  | .string => (b.string? pos).map .string
  | .table => (b.table? pos).map .table

/-- The length and the first element's position of the vector at `pos`, if all its elements, each of
them `width` bytes, are inside the buffer. -/
def elements? (b : Buffer) (width pos : Nat) : Option (Nat × Nat) := do
  let length ← b.nat? pos offsetSize
  if pos + offsetSize + length * width ≤ b.size then some (length, pos + offsetSize) else none

end Buffer

structure VectorView where
  buffer : Buffer
  kind : ElementKind
  start : Nat
  length : Nat

namespace VectorView

def get? (v : VectorView) (i : Nat) : Option Item :=
  if i < v.length then v.buffer.item? v.kind (v.start + i * v.kind.width) else none

def items (v : VectorView) : List Item := readWhile v.get? 0 v.length

end VectorView

namespace TableView
open Layout

def fieldPosition? (t : TableView) (slot : Nat) : Option Nat :=
  t.buffer.slotPosition? t.position slot

def scalar? (t : TableView) (slot : Nat) (type : ScalarType) : Option Value :=
  (t.fieldPosition? slot).bind (t.buffer.value? type)

def scalar (t : TableView) (slot : Nat) (default : Value) : Value :=
  (t.scalar? slot default.type).getD default

def string? (t : TableView) (slot : Nat) : Option String :=
  (t.fieldPosition? slot).bind t.buffer.string?

def table? (t : TableView) (slot : Nat) : Option TableView :=
  (t.fieldPosition? slot).bind t.buffer.table?

def vector? (t : TableView) (slot : Nat) (kind : ElementKind) : Option VectorView := do
  let start ← t.buffer.target? (← t.fieldPosition? slot)
  let (length, first) ← t.buffer.elements? kind.width start
  return ⟨t.buffer, kind, first, length⟩

end TableView
end FlatTable

import FlatTable.Contract
import FlatTable.Schema.Basic

/-! What a builder places in a buffer, and why it refuses to. -/
namespace FlatTable

inductive ElementKind where
  | scalar (t : ScalarType)
  | string
  | table
  deriving DecidableEq

inductive ObjectKind where
  | string
  | vector (e : ElementKind)
  | table
  deriving DecidableEq

/-- An object in a buffer that is being built. `rev` is the distance of its start from the end. -/
structure Placed where
  rev : Nat
  kind : ObjectKind
  deriving DecidableEq

namespace Placed

/-- The last of the objects within `rev` from the end, given that it is one of the next
`2 ^ bits` from `first` on. The objects are in the order of their creation. -/
def lastWithin (created : Array Placed) (rev : Nat) : Nat → Nat → Nat
  | 0, first => first
  | bits + 1, first =>
    let middle := first + Nat.pow 2 bits
    if created[middle]?.any fun p => p.rev ≤ rev then lastWithin created rev bits middle
    else lastWithin created rev bits first

/-- The object that starts `rev` from the end. The latest object comes first in `placed`, and is
the furthest from the end, so bisection finds it. -/
def find? (placed : List Placed) (rev : Nat) : Option Placed :=
  let created := placed.reverse.toArray
  created[lastWithin created rev (created.size.log2 + 1) 0]?.filter fun p => p.rev == rev

def isAmong (p : Placed) (placed : List Placed) : Bool :=
  (find? placed p.rev).any fun q => q.kind == p.kind

end Placed

structure Ref (kind : ObjectKind) where
  rev : Nat
  deriving DecidableEq

def Ref.placed {kind : ObjectKind} (r : Ref kind) : Placed := ⟨r.rev, kind⟩

def ObjectKind.text : ObjectKind → String
  | string => "string"
  | table => "table"
  | vector (.scalar t) => "[" ++ t.name ++ "]"
  | vector .string => "[string]"
  | vector .table => "[table]"

inductive BuildError where
  | unknownTable (id : Nat)
  | unknownField (table field : String)
  | deprecatedField (table field : String)
  | fieldTypeMismatch (field expected found : String)
  | unplacedOffset (rev : Nat)
  | invalidValue (field reason : String)
  | tableTooLarge (table : String) (size : Nat)
  | tooManyFields (table : String) (slots : Nat)
  | bufferTooLarge (requested : Nat)
  | allocationFailed (requested : Nat)
  | contract (v : Contract.Violation)

def allocationMessage (requested : Nat) : String := s!"cannot grow buffer to {requested} bytes"

def BuildError.message : BuildError → String
  | unknownTable id => s!"no table with id {id} in schema"
  | unknownField table field => s!"table '{table}' has no field '{field}'"
  | deprecatedField table field => s!"field '{table}.{field}' is deprecated"
  | fieldTypeMismatch field expected found => s!"field '{field}' expects {expected}, got {found}"
  | unplacedOffset rev => s!"offset {rev} was not created by this builder"
  | invalidValue field reason => s!"invalid value for '{field}': {reason}"
  | tableTooLarge table size =>
    s!"table '{table}' is {size} bytes inline (max {Layout.maxInline})"
  | tooManyFields table slots =>
    s!"table '{table}' needs {slots} vtable slots (max {Layout.maxFields})"
  | bufferTooLarge requested =>
    s!"buffer would grow to {requested} bytes (max {Layout.maxBufferSize})"
  | allocationFailed requested => "allocation failed: " ++ allocationMessage requested
  | contract v => v.message

def BuildError.cause? : BuildError → Option String
  | allocationFailed requested => some (allocationMessage requested)
  | _ => none

end FlatTable

import FlatTable.Builder.Finish
import FlatTable.Text.Quoted

/-! Why a buffer is refused. -/
namespace FlatTable

inductive Subject where
  | reference
  | target
  | table
  | vtable
  | field
  | string
  | stringLength
  | vector
  | vectorLength
  | vectorElement
  deriving DecidableEq

inductive VtableFault where
  | beforeBuffer
  | badSize
  | smallTable
  deriving DecidableEq

inductive VerifyError where
  | bufferTooSmall (size least : Nat)
  | bufferTooLarge (size most : Nat)
  | identifierMismatch (expected found : List UInt8)
  | noRootType
  | unaligned (position alignment : Nat) (what : Subject)
  | outOfBounds (position length size : Nat) (what : Subject)
  | zeroOffset (position : Nat)
  | invalidVtable (table : Nat) (fault : VtableFault)
  | fieldOutOfTable (table : Nat) (field : String) (distance size : Nat)
  | missingTerminator (position : Nat)
  | invalidUtf8 (position : Nat)
  | vectorTooLong (position length : Nat)
  | depthLimit (most : Nat)
  | tableLimit (most : Nat)
  deriving DecidableEq

def Subject.text : Subject → String
  | reference => "offset"
  | target => "offset target"
  | table => "table"
  | vtable => "vtable"
  | field => "field"
  | string => "string"
  | stringLength => "string length"
  | vector => "vector"
  | vectorLength => "vector length"
  | vectorElement => "vector element"

def VtableFault.text : VtableFault → String
  | beforeBuffer => "soffset points before the buffer"
  | badSize => "vtable size must be even and at least 4"
  | smallTable => "table size smaller than its soffset"

def quotedBytes (bytes : List UInt8) : String := Text.quoted (Text.decodeLossy bytes)

def VerifyError.message : VerifyError → String
  | bufferTooSmall size least =>
    s!"buffer of {size} bytes is shorter than the {least}-byte minimum"
  | bufferTooLarge size most => s!"buffer of {size} bytes exceeds the {most}-byte limit"
  | identifierMismatch expected found =>
    s!"file identifier {quotedBytes found} does not match expected {quotedBytes expected}"
  | noRootType => "schema has no root table"
  | unaligned position alignment what =>
    s!"{what.text} at {position} is not {alignment}-byte aligned"
  | outOfBounds position length size what =>
    s!"{what.text} at {position}..{position + length} is outside the {size}-byte buffer"
  | zeroOffset position => s!"zero offset at {position}"
  | invalidVtable table fault => s!"table at {table} has an invalid vtable: {fault.text}"
  | fieldOutOfTable table field distance size =>
    s!"field '{field}' at voffset {distance} does not fit table at {table} ({size} bytes)"
  | missingTerminator position => s!"string at {position} is not NUL-terminated"
  | invalidUtf8 position => s!"string at {position} is not valid UTF-8"
  | vectorTooLong position length => s!"vector at {position} claims {length} elements"
  | depthLimit most => s!"tables nested deeper than {most}"
  | tableLimit most => s!"more than {most} tables in buffer"

end FlatTable

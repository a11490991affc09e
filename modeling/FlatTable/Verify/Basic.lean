import FlatTable.Verify.Error
import FlatTable.View.Table

/-! Checking a buffer before it is read: everything that can be reached from the root by the schema
lies inside the buffer, is aligned and decodes. -/
namespace FlatTable
open Layout

structure VerifierOptions where
  maxDepth : Nat
  maxTables : Nat
  maxBufferSize : Nat
  checkAlignment : Bool
  deriving DecidableEq

def VerifierOptions.standard : VerifierOptions := ⟨64, 1000000, Layout.maxBufferSize, true⟩

/-- Without an identifier none is required, and without a root table the schema's is taken. -/
structure Verifier where
  schema : Schema
  options : VerifierOptions
  identifier : Option Identifier
  rootTable : Option Nat

structure Root where
  position : Nat
  table : Nat
  deriving DecidableEq

/-- A walk through a buffer. The checks of tables count the tables seen and refuse when there are
too many, so each takes the count before and returns the count after. -/
structure Walk where
  buffer : Buffer
  schema : Schema
  options : VerifierOptions

namespace Walk

abbrev Check := Except VerifyError

def outside (w : Walk) (position length : Nat) (what : Subject) : VerifyError :=
  .outOfBounds position length w.buffer.size what

def range (w : Walk) (position length : Nat) (what : Subject) : Check Unit :=
  if position + length ≤ w.buffer.size then .ok () else .error (w.outside position length what)

def aligned (w : Walk) (position alignment : Nat) (what : Subject) : Check Unit :=
  if w.options.checkAlignment ∧ position % alignment ≠ 0 then
    .error (.unaligned position alignment what)
  else .ok ()

def number (w : Walk) (position width : Nat) (what : Subject) : Check Nat :=
  match w.buffer.nat? position width with
  | some n => .ok n
  | none => .error (w.outside position width what)

/-- Where a reference points: forward, at most as far as a signed distance reaches, and into the
buffer. -/
def target (w : Walk) (holder : Nat) : Check Nat := do
  w.aligned holder offsetSize .reference
  let distance ← w.number holder offsetSize .reference
  if distance = 0 then throw (.zeroOffset holder)
  if 0x80000000 ≤ distance ∨ w.buffer.size ≤ holder + distance then
    throw (w.outside holder distance .target)
  return holder + distance

def string (w : Walk) (position : Nat) : Check Unit := do
  w.aligned position offsetSize .string
  let length ← w.number position offsetSize .stringLength
  let body := position + offsetSize
  w.range body (length + 1) .string
  if w.buffer[body + length]? ≠ some 0 then throw (.missingTerminator position)
  if ((w.buffer.slice? body length).bind Text.decodeUtf8?).isNone then
    throw (.invalidUtf8 position)

def vtable (w : Walk) (position : Nat) : Check (Nat × Nat × Nat) := do
  w.aligned position offsetSize .table
  w.range position offsetSize .table
  match w.buffer.vtable? position with
  | none => throw (.invalidVtable position .beforeBuffer)
  | some vtable =>
    w.aligned vtable slotSize .vtable
    let vtableSize ← w.number vtable slotSize .vtable
    if vtableSize < vtableHeader ∨ vtableSize % slotSize ≠ 0 then
      throw (.invalidVtable position .badSize)
    w.range vtable vtableSize .vtable
    let size ← w.number (vtable + slotSize) slotSize .vtable
    if size < offsetSize then throw (.invalidVtable position .smallTable)
    w.range position size .table
    return (vtable, vtableSize, size)

def vectorLength (w : Walk) (position width : Nat) : Check Nat := do
  w.aligned position offsetSize .vector
  let length ← w.number position offsetSize .vectorLength
  if w.options.maxBufferSize / width ≤ length then throw (.vectorTooLong position length)
  let body := position + offsetSize
  w.range body (length * width) .vector
  if 0 < length then w.aligned body width .vectorElement
  return length

def vector (w : Walk) (table : Nat → Nat → Nat → Check Nat) (element : ElementType)
    (position count : Nat) : Check Nat := do
  let length ← w.vectorLength position (w.schema.elementWidth element)
  let holders := (List.range length).map fun i => position + offsetSize + i * offsetSize
  match element with
  | .scalar _ | .enum _ => return count
  | .string =>
    holders.forM fun holder => do w.string (← w.target holder)
    return count
  | .table id => holders.foldlM (fun count holder => do table (← w.target holder) id count) count

def field (w : Walk) (table : Nat → Nat → Nat → Check Nat) (position size : Nat) (f : FieldDef)
    (distance count : Nat) : Check Nat := do
  if distance < offsetSize ∨ size < distance + w.schema.inlineWidth f.type then
    throw (.fieldOutOfTable position f.name distance size)
  let holder := position + distance
  w.aligned holder (w.schema.inlineAlignment f.type) .field
  match f.type with
  | .scalar _ | .enum _ | .struct _ => return count
  | .string =>
    w.string (← w.target holder)
    return count
  | .vector element => w.vector table element (← w.target holder) count
  | .table id => table (← w.target holder) id count

def tableWith (w : Walk) (nested : Nat → Nat → Nat → Check Nat) (position id count : Nat) :
    Check Nat := do
  let count := count + 1
  if w.options.maxTables < count then throw (.tableLimit w.options.maxTables)
  let (vtable, vtableSize, size) ← w.vtable position
  match w.schema.tables[id]? with
  | none => throw .noRootType
  | some t =>
    let known := t.fields.extract 0 (fieldOf vtableSize)
    known.toList.zipIdx.foldlM (fun count (f, i) => do
      let distance ← w.number (vtable + slotOf i) slotSize .vtable
      if distance = 0 then return count
      w.field nested position size f distance count) count

/-- A table under which at most `levels` levels of tables are allowed, its own included. -/
def table (w : Walk) : Nat → Nat → Nat → Nat → Check Nat
  | 0, _, _, _ => .error (.depthLimit w.options.maxDepth)
  | levels + 1, position, id, count => w.tableWith (w.table levels) position id count

end Walk

namespace Verifier

def standard (schema : Schema) : Verifier := ⟨schema, .standard, none, none⟩

def checkHeader (v : Verifier) (b : Buffer) : Except VerifyError Unit := do
  let tag := (v.identifier.map Identifier.bytes).getD []
  let least := offsetSize + tag.length
  if v.options.maxBufferSize < b.size then
    throw (.bufferTooLarge b.size v.options.maxBufferSize)
  if b.size < least then throw (.bufferTooSmall b.size least)
  let found := (b.extract offsetSize least).toList
  if found ≠ tag then throw (.identifierMismatch tag found)

def root? (v : Verifier) : Option Nat :=
  match v.rootTable with
  | some id => if id < v.schema.tables.size then some id else none
  | none => v.schema.rootTable?

def verify (v : Verifier) (b : Buffer) : Except VerifyError Root := do
  v.checkHeader b
  match v.root? with
  | none => throw .noRootType
  | some id =>
    let walk : Walk := ⟨b, v.schema, v.options⟩
    let position ← walk.target 0
    let _ ← walk.table v.options.maxDepth position id 0
    return ⟨position, id⟩

def accepts (v : Verifier) (b : Buffer) : Bool :=
  match v.verify b with
  | .ok _ => true
  | .error _ => false

end Verifier
end FlatTable

import FlatTable.View.Table

/-! Reading the fields of a table by its schema. -/
namespace FlatTable

structure StructView where
  bytes : Buffer
  id : Nat

/-- A vector whose element type the schema gives. Elements of an enum are stored as `scalar`. -/
structure FieldVector where
  buffer : Buffer
  start : Nat
  length : Nat
  element : ElementType
  scalar : Option ScalarType

inductive FieldValue where
  | absent
  | scalar (v : Value)
  | string (s : String)
  | vector (v : FieldVector)
  | table (t : TableView) (id : Nat)
  | struct (s : StructView)

def StructView.member? (s : StructView) (schema : Schema) (i : Nat) : Option Value := do
  let d ← schema.structs[s.id]?
  let m ← d.members[i]?
  s.bytes.value? m.type (← d.offsets[i]?)

namespace FieldVector

def at? (s : Schema) (b : Buffer) (element : ElementType) (pos : Nat) : Option FieldVector := do
  let (length, start) ← b.elements? (s.elementWidth element) pos
  return ⟨b, start, length, element, s.elementScalarType? element⟩

def get? (v : FieldVector) (i : Nat) : Option FieldValue :=
  if i < v.length then
    match v.element, v.scalar with
    | .string, _ => (v.buffer.string? (v.start + i * Layout.offsetSize)).map .string
    | .table id, _ => (v.buffer.table? (v.start + i * Layout.offsetSize)).map (.table · id)
    | _, some t => (v.buffer.value? t (v.start + i * t.width)).map .scalar
    | _, none => none
  else none

/-- The elements, up to the first that cannot be read. -/
def items (v : FieldVector) : List FieldValue := readWhile v.get? 0 v.length

end FieldVector

namespace TableView

def stored? (t : TableView) (s : Schema) (type : FieldType) (pos : Nat) : Option FieldValue :=
  match type with
  | .string => (t.buffer.string? pos).map .string
  | .vector e => ((t.buffer.target? pos).bind (FieldVector.at? s t.buffer e)).map .vector
  | .table id => (t.buffer.table? pos).map (.table · id)
  | .struct id =>
    (t.buffer.slice? pos (s.inlineWidth type)).map fun bytes => .struct ⟨bytes.toArray, id⟩
  | .scalar _ | .enum _ => none

def scalarField? (t : TableView) (s : Schema) (table field : Nat) (type : ScalarType) :
    Option Value :=
  match (t.buffer.fieldPosition? t.position field).bind (t.buffer.value? type) with
  | some v => some v
  | none => s.fieldDefault? table field

/-- The field with this number, the table being one that the schema calls `table`. Deprecated and
unknown fields are absent. -/
def field (t : TableView) (s : Schema) (table field : Nat) : FieldValue :=
  match s.field? table field with
  | none => .absent
  | some f =>
    if f.deprecated then .absent
    else
      match f.type with
      | .scalar _ | .enum _ =>
        (((s.scalarType? f.type).bind (t.scalarField? s table field)).map .scalar).getD .absent
      | type =>
        ((t.buffer.fieldPosition? t.position field).bind (t.stored? s type)).getD .absent

end TableView
end FlatTable

import FlatTable.View.Field

/-! Changing stored scalars in place. Only bytes that are there can change, and a change that is
refused has no result. -/
namespace FlatTable
open Layout

structure MutableTable where
  schema : Schema
  buffer : Buffer
  position : Nat
  table : Nat

structure MutableVector where
  buffer : Buffer
  type : ScalarType
  start : Nat
  length : Nat

namespace MutableVector

def get? (v : MutableVector) (i : Nat) : Option Value :=
  if i < v.length then v.buffer.value? v.type (v.start + i * v.type.width) else none

def set? (v : MutableVector) (i : Nat) (value : Value) : Option MutableVector :=
  if value.type = v.type ∧ i < v.length then
    (v.buffer.write? (v.start + i * v.type.width) value.bytes).map ({ v with buffer := · })
  else none

end MutableVector

namespace MutableTable

def view (t : MutableTable) : TableView := ⟨t.buffer, t.position⟩

def fieldPosition? (t : MutableTable) (field : Nat) : Option Nat :=
  t.buffer.fieldPosition? t.position field

def setField? (t : MutableTable) (field : Nat) (v : Value) : Option Buffer := do
  let f ← t.schema.field? t.table field
  if f.deprecated ∨ t.schema.scalarType? f.type ≠ some v.type then none
  else t.buffer.write? (← t.fieldPosition? field) v.bytes

/-- Replaces the field whose entry in the vtable is at `slot`. -/
def setSlot? (t : MutableTable) (slot : Nat) (v : Value) : Option Buffer :=
  if slot < vtableHeader ∨ slot % slotSize ≠ 0 then none else t.setField? (fieldOf slot) v

def structOf? (t : MutableTable) : FieldType → Option StructDef
  | .struct id => t.schema.structs[id]?
  | _ => none

def setMember? (t : MutableTable) (field member : Nat) (v : Value) : Option Buffer := do
  let f ← t.schema.field? t.table field
  let d ← t.structOf? f.type
  if f.deprecated ∨ d.members[member]?.map Member.type ≠ some v.type then none
  else t.buffer.write? ((← t.fieldPosition? field) + (← d.offsets[member]?)) v.bytes

def elementTypeOf? (t : MutableTable) : FieldType → Option ScalarType
  | .vector e => t.schema.elementScalarType? e
  | _ => none

def vector? (t : MutableTable) (field : Nat) : Option MutableVector := do
  let f ← t.schema.field? t.table field
  if f.deprecated then none
  else
    let type ← t.elementTypeOf? f.type
    let (length, start) ← t.buffer.elements? type.width
      (← t.buffer.target? (← t.fieldPosition? field))
    return ⟨t.buffer, type, start, length⟩

/-- The scalars of a vector field, if they are of the type asked for. -/
def vectorOf? (t : MutableTable) (field : Nat) (type : ScalarType) : Option MutableVector :=
  (t.vector? field).filter fun v => v.type == type

def setElement? (t : MutableTable) (field i : Nat) (v : Value) : Option Buffer := do
  let span ← t.vector? field
  if span.type ≠ v.type ∨ span.length ≤ i then none
  else t.buffer.write? (span.start + i * span.type.width) v.bytes

def tableOf? : FieldType → Option Nat
  | .table id => some id
  | _ => none

def nested? (t : MutableTable) (field : Nat) : Option MutableTable := do
  let f ← t.schema.field? t.table field
  let id ← tableOf? f.type
  let target ← t.buffer.target? (← t.fieldPosition? field)
  if target < t.buffer.size then some { t with position := target, table := id } else none

def follow? (t : MutableTable) (path : List Nat) : Option MutableTable :=
  path.foldlM nested? t

end MutableTable
end FlatTable

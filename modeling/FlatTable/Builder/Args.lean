import FlatTable.Builder.Object

/-! The contents of a table that is to be built. A value is checked against the schema when it is
set. -/
namespace FlatTable

inductive Setting where
  | scalar (v : Value)
  | reference (p : Placed)
  | struct (members : List Value)

/-- Settings by the number of their field; fields without one are left out. -/
structure TableArgs where
  schema : Schema
  table : Nat
  settings : Array (Option Setting)

/-- May a field of this type refer to an object of this kind? -/
def Schema.accepts (s : Schema) (t : FieldType) (kind : ObjectKind) : Bool :=
  match t, kind with
  | .string, .string | .table _, .table => true
  | .vector .string, .vector .string | .vector (.table _), .vector .table => true
  | .vector e, .vector (.scalar found) => s.elementScalarType? e == some found
  | _, _ => false

namespace TableArgs

def new (schema : Schema) (table : Nat) : Except BuildError TableArgs :=
  match schema.tables[table]? with
  | some t => .ok ⟨schema, table, Array.replicate t.fields.size none⟩
  | none => .error (.unknownTable table)

def fieldId (a : TableArgs) (name : String) : Except BuildError Nat :=
  match a.schema.tables[a.table]? with
  | some t =>
    match t.fieldId? name with
    | some id => .ok id
    | none => .error (.unknownField t.name name)
  | none => .error (.unknownField "" name)

/-- A field that exists and is not deprecated. -/
def writable (a : TableArgs) (id : Nat) : Except BuildError FieldDef :=
  match a.schema.tables[a.table]? with
  | none => .error (.unknownTable a.table)
  | some t =>
    match t.fields[id]? with
    | none => .error (.unknownField t.name ("#" ++ toString id))
    | some f => if f.deprecated then .error (.deprecatedField t.name f.name) else .ok f

private def put (a : TableArgs) (id : Nat) (s : Setting) : TableArgs :=
  { a with settings := a.settings.setIfInBounds id (some s) }

def setScalar (a : TableArgs) (id : Nat) (v : Value) : Except BuildError TableArgs := do
  let f ← a.writable id
  if a.schema.scalarType? f.type = some v.type then return a.put id (.scalar v)
  else throw (.fieldTypeMismatch f.name (a.schema.typeName f.type) v.type.name)

def structOf? (s : Schema) : FieldType → Option StructDef
  | .struct id => s.structs[id]?
  | _ => none

def badMember? : List Member → List Value → Option (Member × Value)
  | m :: ms, v :: vs => if m.type = v.type then badMember? ms vs else some (m, v)
  | _, _ => none

def setStruct (a : TableArgs) (id : Nat) (values : List Value) : Except BuildError TableArgs := do
  let f ← a.writable id
  match structOf? a.schema f.type with
  | none => throw (.fieldTypeMismatch f.name (a.schema.typeName f.type) "struct")
  | some d =>
    if values.length ≠ d.members.length then
      throw (.invalidValue f.name
        s!"{d.name} has {d.members.length} members, got {values.length}")
    match badMember? d.members values with
    | some (m, v) => throw (.fieldTypeMismatch (f.name ++ "." ++ m.name) m.type.name v.type.name)
    | none => return a.put id (.struct values)

def setReference (a : TableArgs) (id : Nat) (p : Placed) : Except BuildError TableArgs := do
  let f ← a.writable id
  if a.schema.accepts f.type p.kind then return a.put id (.reference p)
  else throw (.fieldTypeMismatch f.name (a.schema.typeName f.type) p.kind.text)

def addScalar (a : TableArgs) (name : String) (v : Value) : Except BuildError TableArgs := do
  a.setScalar (← a.fieldId name) v

def addStruct (a : TableArgs) (name : String) (values : List Value) :
    Except BuildError TableArgs := do
  a.setStruct (← a.fieldId name) values

def addReference {kind : ObjectKind} (a : TableArgs) (name : String) (r : Ref kind) :
    Except BuildError TableArgs := do
  a.setReference (← a.fieldId name) r.placed

end TableArgs
end FlatTable

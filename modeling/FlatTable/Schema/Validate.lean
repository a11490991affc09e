import Std.Data.TreeSet
import FlatTable.Scalar.Convert
import FlatTable.Schema.Error

/-! The conditions under which a schema can be used: names are unique, references are in range,
defaults and enumerators have the right type, and every vtable has room for its fields. -/
namespace FlatTable.Schema

abbrev Names := Std.TreeSet String

def addName (kind : NameKind) (shown name : String) (seen : Names) : Except SchemaError Names :=
  if seen.contains name then .error (.duplicateName kind shown) else .ok (seen.insert name)

def checkEnumerator (e : EnumDef) (seen : Names) (v : Enumerator) : Except SchemaError Names := do
  let seen ← addName .enumerator (e.name ++ "." ++ v.name) v.name seen
  if (e.underlying.ofLong? v.value).isNone then
    throw (.invalidEnumValue e.name v.name v.value)
  return seen

def checkEnum (e : EnumDef) : Except SchemaError Unit := do
  if !e.underlying.isInteger then throw (.invalidEnumUnderlying e.name e.underlying.name)
  let _ ← e.values.foldlM (checkEnumerator e) Std.TreeSet.empty
  return ()

def checkStruct (s : StructDef) : Except SchemaError Unit := do
  if s.members.isEmpty then throw (.emptyStruct s.name)
  let _ ← s.members.foldlM
    (fun seen m => addName .member (s.name ++ "." ++ m.name) m.name seen) Std.TreeSet.empty
  return ()

def reference? : FieldType → Option (ReferenceKind × Nat)
  | .enum id | .vector (.enum id) => some (.enum, id)
  | .table id | .vector (.table id) => some (.table, id)
  | .struct id => some (.struct, id)
  | _ => none

def countOf (s : Schema) : ReferenceKind → Nat
  | .enum => s.enums.size
  | .struct => s.structs.size
  | .table | .root => s.tables.size

def checkReference (s : Schema) (t : FieldType) : Except SchemaError Unit :=
  match reference? t with
  | some (kind, id) => if id < s.countOf kind then .ok () else .error (.invalidReference kind id)
  | none => .ok ()

def checkDefault (s : Schema) (table : String) (f : FieldDef) : Except SchemaError Unit :=
  match f.declared with
  | some v =>
    if s.scalarType? f.type = some v.type then .ok ()
    else .error (.invalidDefault (table ++ "." ++ f.name) v.text)
  | none => .ok ()

def checkField (s : Schema) (table : String) (seen : Names) (f : FieldDef) :
    Except SchemaError Names := do
  let seen ← addName .field (table ++ "." ++ f.name) f.name seen
  s.checkReference f.type
  s.checkDefault table f
  return seen

def checkTable (s : Schema) (t : TableDef) : Except SchemaError Unit := do
  if Layout.maxFields < t.fields.size then throw (.tooManyFields t.name t.fields.size)
  let _ ← t.fields.toList.foldlM (s.checkField t.name) Std.TreeSet.empty
  return ()

def checkRoot (s : Schema) : Except SchemaError Unit :=
  match s.root with
  | some id => if id < s.tables.size then .ok () else .error (.invalidReference .root id)
  | none => .ok ()

/-- The first violation in the order of declaration, if there is one. Enums, structs and tables
share one set of names. -/
def validate (s : Schema) : Except SchemaError Unit := do
  let seen ← s.enums.toList.foldlM (fun seen e => do
    let seen ← addName .enum e.name e.name seen
    checkEnum e
    return seen) Std.TreeSet.empty
  let seen ← s.structs.toList.foldlM (fun seen d => do
    let seen ← addName .struct d.name d.name seen
    checkStruct d
    return seen) seen
  let _ ← s.tables.toList.foldlM (fun seen t => do
    let seen ← addName .table t.name t.name seen
    s.checkTable t
    return seen) seen
  s.checkRoot

end FlatTable.Schema

import FlatTable.Schema.Description
import FlatTable.Schema.Validate
import FlatTable.Text.LowerCase

/-! From a description to a schema: names become numbers, field names are lower-cased, scopes of
enumerators are dropped, and enumerators without a value are counted up. -/
namespace FlatTable
open Schema

def Json.numberValue? (t : ScalarType) : Json → Option Value
  | .integer i => if i < Nat.pow 2 63 then t.ofLong? i else t.ofULong? i.toNat
  | .real bits => t.ofDouble? bits
  | _ => none

namespace Description

/-- The value of each enumerator. The count stops at the greatest `long`. -/
def Enum.resolveValues (e : EnumDef) (next : Int) : List Enumerator → EnumDef
  | [] => e
  | v :: vs =>
    let value := v.value.getD next
    resolveValues (e.withValue v.name value) (min (value + 1) (Nat.pow 2 63 - 1)) vs

def Enum.resolve (e : Enum) : Except SchemaError EnumDef :=
  match (ScalarType.ofName? e.underlying).filter ScalarType.isInteger with
  | some t => .ok (resolveValues ⟨e.name, t, []⟩ 0 e.values)
  | none => .error (.invalidEnumUnderlying e.name e.underlying)

def Struct.resolveMember (struct : String) (m : Member) : Except SchemaError FlatTable.Member :=
  match ScalarType.ofName? m.type with
  | some t => .ok ⟨Text.lowerCase m.name, t⟩
  | none => .error (.unknownType (struct ++ "." ++ m.name) m.type)

def Struct.resolve (s : Struct) : Except SchemaError StructDef := do
  return ⟨s.name, ← s.members.mapM (resolveMember s.name)⟩

def usesVec3 (d : Description) : Bool :=
  let name := StructDef.vec3.name
  let declares := d.structs.any (fun s => s.name == name) ||
    d.tables.any (fun t => t.name == name) || d.enums.any (fun e => e.name == name)
  !declares && d.tables.any fun t => t.fields.any fun f => Text.trimString f.type == name

end Description

namespace Schema

/-- The type with this name. Declared names come before the built-in ones, except for `string`. -/
def namedType? (s : Schema) (name : String) : Option FieldType :=
  if name = "string" then some .string
  else
    match s.enumId? name, s.structId? name, s.tableId? name with
    | some id, _, _ => some (.enum id)
    | none, some id, _ => some (.struct id)
    | none, none, some id => some (.table id)
    | none, none, none => (ScalarType.ofName? name).map .scalar

def bracketed? (name : List Char) : Option (List Char) :=
  match name with
  | '[' :: rest => if rest.getLast? = some ']' then some rest.dropLast else none
  | _ => none

/-- Vectors hold neither vectors nor structs. -/
def elementType? : FieldType → Option ElementType
  | .scalar t => some (.scalar t)
  | .enum id => some (.enum id)
  | .string => some .string
  | .table id => some (.table id)
  | .vector _ | .struct _ => none

def resolveType? (s : Schema) (name : String) : Option FieldType :=
  let cs := Text.trim name.toList
  match bracketed? cs with
  | some inner =>
    let inner := Text.trim inner
    if (bracketed? inner).isSome then none
    else ((s.namedType? (String.ofList inner)).bind elementType?).map .vector
  | none => s.namedType? (String.ofList cs)

def resolveDefault? (s : Schema) (t : FieldType) (raw : Json) : Option Value := do
  let scalar ← s.scalarType? t
  match raw with
  | .bool b => if scalar = .bool then some (scalar.value b.toNat) else none
  | .string text =>
    let named := match t with
      | .enum id => s.enums[id]?.bind fun e => e.valueOf? (Text.stripScope text)
      | _ => none
    match named with
    | some value => scalar.ofLong? value
    | none => scalar.parse? text
  | number => number.numberValue? scalar

def resolveField (s : Schema) (table : String) (f : Description.Field) :
    Except SchemaError FieldDef := do
  let name := Text.lowerCase f.name
  let shown := table ++ "." ++ name
  match s.resolveType? f.type with
  | none => throw (.unknownType shown f.type)
  | some type =>
    match f.declared with
    | none => return ⟨name, type, none, f.deprecated, f.attributes⟩
    | some raw =>
      match s.resolveDefault? type raw with
      | some value => return ⟨name, type, some value, f.deprecated, f.attributes⟩
      | none => throw (.invalidDefault shown raw.text)

/-- The schema that a description describes, validated. Fields can refer to tables that are declared
later, so their types are resolved when all names are known. -/
def ofDescription (d : Description) : Except SchemaError Schema := do
  let enums ← d.enums.mapM Description.Enum.resolve
  let declared ← d.structs.mapM Description.Struct.resolve
  let structs := if d.usesVec3 then declared ++ [StructDef.vec3] else declared
  let names : Schema := ⟨d.nameSpace, d.attributes, enums.toArray, structs.toArray,
    (d.tables.map fun t => ⟨t.name, #[]⟩).toArray, none⟩
  let tables ← d.tables.mapM fun t => do
    return (⟨t.name, (← t.fields.mapM (names.resolveField t.name)).toArray⟩ : TableDef)
  let root ← match d.root with
    | none => pure none
    | some name =>
      match names.tableId? name with
      | some id => pure (some id)
      | none => throw (.unknownRootType name)
  let schema := { names with tables := tables.toArray, root := root }
  schema.validate
  return schema

def ofText (text : String) : Except SchemaError Schema :=
  match Description.ofText? text with
  | some d => ofDescription d
  | none => .error .malformed

end Schema
end FlatTable

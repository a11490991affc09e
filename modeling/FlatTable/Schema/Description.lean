import FlatTable.Json.Record
import FlatTable.Schema.Basic

/-! Schemas described in JSON, where everything refers to everything else by name. -/
namespace FlatTable.Description
open Json

/-- An enumerator without a value takes the one after its predecessor's. -/
structure Enumerator where
  name : String
  value : Option Int

structure Enum where
  name : String
  underlying : String
  values : List Enumerator

structure Member where
  name : String
  type : String

structure Struct where
  name : String
  members : List Member

structure Field where
  name : String
  type : String
  declared : Option Json
  deprecated : Bool
  attributes : List String

structure Table where
  name : String
  fields : List Field

end Description

structure Description where
  nameSpace : String
  attributes : List String
  enums : List Description.Enum
  structs : List Description.Struct
  tables : List Description.Table
  root : Option String

namespace Description
open Json Document

def strings? : Document → Option (List String) := list? string?

def Enumerator.read? (d : Document) : Option Enumerator := do
  match ← d.record? ["name", "value"] true with
  | [name, value] =>
    return ⟨← required? string? name,
      ← orElse? (optional? (integerIn? (-(Nat.pow 2 63)) (Nat.pow 2 63))) none value⟩
  | _ => none

def Enum.read? (d : Document) : Option Enum := do
  match ← d.record? ["name", "underlying", "values"] true with
  | [name, underlying, values] =>
    return ⟨← required? string? name, ← orElse? string? "byte" underlying,
      ← required? (list? Enumerator.read?) values⟩
  | _ => none

def Member.read? (d : Document) : Option Member := do
  match ← d.record? ["name", "type"] true with
  | [name, type] => return ⟨← required? string? name, ← required? string? type⟩
  | _ => none

def Struct.read? (d : Document) : Option Struct := do
  match ← d.record? ["name", "fields"] true with
  | [name, members] =>
    return ⟨← required? string? name, ← required? (list? Member.read?) members⟩
  | _ => none

def Field.read? (d : Document) : Option Field := do
  match ← d.record? ["name", "type", "default", "deprecated", "attributes"] true with
  | [name, type, declared, deprecated, attributes] =>
    return ⟨← required? string? name, ← required? string? type,
      ← orElse? (optional? toJson?) none declared, ← orElse? bool? false deprecated,
      ← orElse? strings? [] attributes⟩
  | _ => none

def Table.read? (d : Document) : Option Table := do
  match ← d.record? ["name", "fields"] true with
  | [name, fields] =>
    return ⟨← required? string? name, ← orElse? (list? Field.read?) [] fields⟩
  | _ => none

def read? (d : Document) : Option Description := do
  match ← d.record? ["namespace", "attributes", "enums", "structs", "tables", "root_type"] true with
  | [nameSpace, attributes, enums, structs, tables, root] =>
    return ⟨← orElse? string? "" nameSpace, ← orElse? strings? [] attributes,
      ← orElse? (list? Enum.read?) [] enums, ← orElse? (list? Struct.read?) [] structs,
      ← required? (list? Table.read?) tables, ← orElse? (optional? string?) none root⟩
  | _ => none

def ofText? (text : String) : Option Description := do
  let d ← Document.ofText? text
  if d.depth ≤ maxDepth then read? d else none

def stringsJson (ss : List String) : Json := .array (ss.map .string)

def optionalMember (name : String) (value : Option Json) : List (String × Json) :=
  match value with
  | some j => [(name, j)]
  | none => []

def Enumerator.toJson (v : Enumerator) : Json :=
  .object ([("name", .string v.name)] ++ optionalMember "value" (v.value.map .integer))

def Enum.toJson (e : Enum) : Json :=
  .object [("name", .string e.name), ("underlying", .string e.underlying),
    ("values", .array (e.values.map Enumerator.toJson))]

def Member.toJson (m : Member) : Json :=
  .object [("name", .string m.name), ("type", .string m.type)]

def Struct.toJson (s : Struct) : Json :=
  .object [("name", .string s.name), ("fields", .array (s.members.map Member.toJson))]

def Field.toJson (f : Field) : Json :=
  .object ([("name", .string f.name), ("type", .string f.type)] ++
    optionalMember "default" f.declared ++
    [("deprecated", .bool f.deprecated), ("attributes", stringsJson f.attributes)])

def Table.toJson (t : Table) : Json :=
  .object [("name", .string t.name), ("fields", .array (t.fields.map Field.toJson))]

def toJson (d : Description) : Json :=
  .object ([("namespace", .string d.nameSpace), ("attributes", stringsJson d.attributes),
    ("enums", .array (d.enums.map Enum.toJson)), ("structs", .array (d.structs.map Struct.toJson)),
    ("tables", .array (d.tables.map Table.toJson))] ++
    optionalMember "root_type" (d.root.map .string))

end Description
end FlatTable

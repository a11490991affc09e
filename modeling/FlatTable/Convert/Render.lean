import FlatTable.Json.Basic
import FlatTable.View.Field

/-! Tables as JSON: every scalar and enum field with its value or default, and the other fields that
are present. -/
namespace FlatTable
open Ieee

namespace Value

/-- A number or a boolean. A floating-point number without a JSON form becomes `null`. -/
def toJson (v : Value) : Json :=
  match v.type.format? with
  | some f =>
    if f.isFinite v.pattern then
      .real (if f = Format.double then v.pattern else f.convert Format.double v.pattern)
    else .null
  | none =>
    match v.type with
    | .bool => .bool (v.pattern ≠ 0)
    | _ => .integer v.integer

end Value

namespace Schema

def scalarJson (s : Schema) (enum : Option Nat) (v : Value) : Json :=
  let name := (enum.bind fun id => s.enums[id]?).bind fun e => v.asLong?.bind e.nameOf?
  match name with
  | some name => .string name
  | none => v.toJson

def enumOf? : FieldType → Option Nat
  | .enum id | .vector (.enum id) => some id
  | _ => none

def structJson (s : Schema) (v : StructView) : Json :=
  match s.structs[v.id]? with
  | none => .object []
  | some d => Json.ofMembers <| d.members.zipIdx.filterMap fun (m, i) =>
      (v.member? s i).map fun value => (m.name, s.scalarJson none value)

/-- A value other than a vector. `tableJson` is for the tables that it refers to. -/
def itemJson (s : Schema) (tableJson : TableView → Nat → Json) (enum : Option Nat) :
    FieldValue → Json
  | .scalar v => s.scalarJson enum v
  | .string text => .string text
  | .table t id => tableJson t id
  | .struct v => s.structJson v
  | .vector _ | .absent => .null

def valueJson (s : Schema) (tableJson : TableView → Nat → Json) (enum : Option Nat) :
    FieldValue → Json
  | .vector v => .array (v.items.map (s.itemJson tableJson enum))
  | value => s.itemJson tableJson enum value

def membersJson (s : Schema) (tableJson : TableView → Nat → Json) (t : TableView) (id : Nat) :
    Json :=
  match s.tables[id]? with
  | none => .object []
  | some d => Json.ofMembers <| d.fields.toList.zipIdx.filterMap fun (f, i) =>
      match t.field s id i with
      | .absent => none
      | value => some (f.name, s.valueJson tableJson (enumOf? f.type) value)

def tableJsonWithin (s : Schema) : Nat → TableView → Nat → Json
  | 0, _, _ => .object []
  | fuel + 1, t, id => s.membersJson (s.tableJsonWithin fuel) t id

/-- The table that the schema calls `id`. A reference points forward and into the buffer, so nested
tables lie at ever greater positions, and as many levels as there are bytes behind the table are
enough. -/
def tableJson (s : Schema) (t : TableView) (id : Nat) : Json :=
  s.tableJsonWithin (t.buffer.size - t.position + 1) t id

end Schema
end FlatTable

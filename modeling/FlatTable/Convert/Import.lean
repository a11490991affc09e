import FlatTable.Builder.Finish
import FlatTable.Json.Basic
import FlatTable.Scalar.Convert

/-! Tables built from JSON. Members are taken in the order of the object, and `null` leaves a field
out. -/
namespace FlatTable
open Builder

def ScalarType.ofNumber? (t : ScalarType) : Json → Option Value
  | .integer i => if 0 ≤ i then t.ofULong? i.toNat else t.ofLong? i
  | .real bits => t.ofDouble? bits
  | _ => none

namespace Schema

/-- The value that a string gives a field: the name of an enumerator, or else the text of a
number. -/
def scalarOfString? (s : Schema) (t : FieldType) (scalar : ScalarType) (text : String) :
    Option Value :=
  match t with
  | .enum id => s.enums[id]?.bind fun e =>
    match e.valueOf? text with
    | some value => scalar.ofLong? value
    | none => scalar.parse? text
  | _ => scalar.parse? text

def scalarOfJson? (s : Schema) (t : FieldType) (json : Json) : Option Value :=
  (s.scalarType? t).bind fun scalar =>
    match json with
    | .bool b => if scalar = .bool then some (scalar.value b.toNat) else none
    | .string text => s.scalarOfString? t scalar text
    | number => scalar.ofNumber? number

def parseScalar? (s : Schema) (t : FieldType) (text : String) : Option Value :=
  s.scalarOfJson? t (.string text)

def scalarOfJson (s : Schema) (f : FieldDef) (json : Json) : Except BuildError Value :=
  match s.scalarOfJson? f.type json with
  | some v => .ok v
  | none =>
    .error (.invalidValue f.name ("can't store " ++ json.text ++ " as " ++ s.typeName f.type))

def structOfJson (s : Schema) (f : FieldDef) (id : Nat) (json : Json) :
    Except BuildError (List Value) :=
  match s.structs[id]?, json with
  | none, _ => .error (.invalidValue f.name "unresolved struct type")
  | some d, .object members =>
    match members.find? fun m => (d.memberId? m.1).isNone with
    | some (key, _) => .error (.unknownField d.name key)
    | none => d.members.mapM fun m =>
      match Json.member? m.name members with
      | none => .error (.invalidValue f.name ("missing struct member '" ++ m.name ++ "'"))
      | some item =>
        match s.scalarOfJson? (.scalar m.type) item with
        | some v => .ok v
        | none =>
          .error (.invalidValue f.name ("can't store " ++ item.text ++ " as " ++ m.type.name))
  | some _, _ => .error (.invalidValue f.name "expected a JSON object")

def elementsOfJson (s : Schema) (f : FieldDef) (e : ElementType) (t : ScalarType)
    (items : List Json) : Except BuildError (List Value) :=
  let asField := match e with
    | .enum id => FieldType.enum id
    | _ => FieldType.scalar t
  items.mapM fun item =>
    match s.scalarOfJson? asField item with
    | some v => .ok v
    | none =>
      .error (.invalidValue f.name ("can't store element " ++ item.text ++ " as " ++ t.name))

end Schema

namespace Builder

def placeStrings (f : FieldDef) : List Json → List (Ref .string) → Build (List (Ref .string))
  | [], placed => return placed.reverse
  | .string text :: rest, placed => do placeStrings f rest ((← createString text) :: placed)
  | _ :: _, _ => throw (.invalidValue f.name "expected an array of strings")

def placeFlat (s : Schema) (f : FieldDef) (json : Json) : Build Placed :=
  match f.type, json with
  | .string, .string text => do return (← createString text).placed
  | .string, _ => throw (.invalidValue f.name "expected a string")
  | .vector .string, .array items => do
    return (← createStringVector (← placeStrings f items [])).placed
  | .vector e, .array items =>
    match s.elementScalarType? e with
    | none => throw (.invalidValue f.name "unresolved element type")
    | some t => do return (← createVector t (← s.elementsOfJson f e t items)).placed
  | .vector _, _ => throw (.invalidValue f.name "expected an array")
  | _, _ => throw (.invalidValue f.name "inline field has no offset")

/-- Sets one field. `table` and `tables` build the tables that the value describes. -/
def setMember (s : Schema) (t : TableDef) (id : Nat) (json : Json)
    (table : Nat → Build (Ref .table)) (tables : FieldDef → Nat → Build (Ref (.vector .table)))
    (a : TableArgs) : Build TableArgs := do
  match json, t.fields[id]? with
  | .null, _ => return a
  | _, none => throw (.unknownField t.name ("#" ++ toString id))
  | _, some f =>
    if f.deprecated then throw (.deprecatedField t.name f.name)
    match f.type with
    | .scalar _ | .enum _ => a.setScalar id (← s.scalarOfJson f json)
    | .struct struct => a.setStruct id (← s.structOfJson f struct json)
    | .table nested => a.setReference id (← table nested).placed
    | .vector (.table nested) => a.setReference id (← tables f nested).placed
    | _ => a.setReference id (← placeFlat s f json)

mutual

def buildTable (s : Schema) (id : Nat) : Json → Build (Ref .table)
  | .object members => do
    match s.tables[id]? with
    | none => throw (.unknownTable id)
    | some t => createTable (← setMembers s t members (← TableArgs.new s id))
  | _ => do
    match s.tables[id]? with
    | none => throw (.unknownTable id)
    | some t => throw (.invalidValue t.name "expected a JSON object")

def setMembers (s : Schema) (t : TableDef) : List (String × Json) → TableArgs → Build TableArgs
  | [], a => return a
  | (key, json) :: rest, a => do
    match t.fieldId? key with
    | none => throw (.unknownField t.name key)
    | some id =>
      let table := fun nested => buildTable s nested json
      let tables := fun f nested => buildTableVector s f nested json
      setMembers s t rest (← setMember s t id json table tables a)

def buildTableVector (s : Schema) (f : FieldDef) (id : Nat) :
    Json → Build (Ref (.vector .table))
  | .array items => do createTableVector (← buildTables s id items [])
  | _ => throw (.invalidValue f.name "expected an array")

def buildTables (s : Schema) (id : Nat) :
    List Json → List (Ref .table) → Build (List (Ref .table))
  | [], built => return built.reverse
  | json :: rest, built => do buildTables s id rest ((← buildTable s id json) :: built)

end

end Builder

def Schema.bufferOfJson (s : Schema) (json : Json) : Except BuildError Buffer :=
  match s.rootTable? with
  | none => .error (.unknownTable 0)
  | some root =>
    let steps : Build FinishedBuffer := do
      let table ← buildTable s root json
      finish table none
    ((steps.runFrom (Builder.withCapacity 0)).1).map FinishedBuffer.data

end FlatTable

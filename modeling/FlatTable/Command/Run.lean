import FlatTable.Command.Arguments
import FlatTable.Command.Assignment
import FlatTable.Command.Directories
import FlatTable.Command.Failure
import FlatTable.Convert.Render
import FlatTable.Samples
import FlatTable.Schema.Resolve
import FlatTable.Schema.Text
import FlatTable.Terminal.Panel

/-! The commands: building, verifying, inspecting and changing buffers, and showing schemas. -/
namespace FlatTable.CommandLine
open Terminal

abbrev Activity := ExceptT Failure Program

namespace Activity

def print (line : String) : Activity Unit := ExceptT.lift (.print line (.done ()))

def readBytes (path : String) : Activity Buffer := do
  match ← ExceptT.lift (.readFile path .done) with
  | .ok b => return b
  | .error e => throw (.read path e)

def decode (what : String) (b : Buffer) : Activity String :=
  match Text.decodeUtf8? b.toList with
  | some text => return text
  | none => throw (.notText what)

def readText (what path : String) : Activity String := do
  match ← ExceptT.lift (.readFile path .done) with
  | .ok b => decode what b
  | .error e => throw (.read what e)

def readInput : Activity String := do decode "stdin" (← ExceptT.lift (.readInput .done))

def write (path : String) (b : Buffer) : Activity Unit := do
  match ← ExceptT.lift (.writeFile path b .done) with
  | .ok _ => return ()
  | .error e => throw (.write path e)

def createDirectories (path : String) : Activity Unit := do
  match ← ExceptT.lift (.ensureDirectories path) with
  | .ok _ => return ()
  | .error e => throw (.create path e)

def orFail {ε α : Type} (wrap : ε → Failure) : Except ε α → Activity α
  | .ok a => return a
  | .error e => throw (wrap e)

def require {α : Type} (f : Failure) : Option α → Activity α
  | some a => return a
  | none => throw f

end Activity

open Activity

def loadSchema : Option String → Activity Schema
  | none => return Character.schema
  | some path => do orFail (.schema path) (Schema.ofText (← readText ("schema " ++ path) path))

def identifier (text : String) : Activity Identifier :=
  require (.identifierLength text) (Identifier.ofBytes? (Text.encodeUtf8 text))

def optionalIdentifier : Option String → Activity (Option Identifier)
  | none => return none
  | some text => do return some (← identifier text)

def verifier (schema : Schema) (c : Checks) : Activity Verifier := do
  let options : VerifierOptions :=
    ⟨c.maxDepth, c.maxTables, VerifierOptions.standard.maxBufferSize, !c.noAlign⟩
  return ⟨schema, options, ← optionalIdentifier c.identifier, none⟩

def checksumText (b : Buffer) : String := Text.hexPadded 8 (Crc32.checksum b).toNat

def buildStep {α : Type} (b : Builder) (steps : Build α) : Activity (α × Builder) :=
  match steps.runFrom b with
  | (.ok a, b) => return (a, b)
  | (.error e, _) => throw (.build e)

/-- Builds a buffer from JSON. The identifier is looked at when the root has been built. -/
def runBuild (input output : String) (tag : Option String) (forceDefaults : Bool)
    (schemaFile : Option String) : Activity Unit := do
  let schema ← loadSchema schemaFile
  let text ← if input = "-" then readInput else readText input input
  let json ← require .malformedInput (Json.ofText? text)
  let root ← require .noTables schema.rootTable?
  let fresh := { Builder.withCapacity 0 with forceDefaults := forceDefaults }
  let (table, built) ← buildStep fresh (Builder.buildTable schema root json)
  let (finished, _) ← buildStep built (Builder.finish table (← optionalIdentifier tag))
  write output finished.data
  print s!"✓ wrote {output} ({formatSize finished.data.size})"

def runVerify (style : Style) (file : String) (schemaFile : Option String) (checks : Checks) :
    Activity Unit := do
  let schema ← loadSchema schemaFile
  let bytes ← readBytes file
  let root ← orFail (.refused file) ((← verifier schema checks).verify bytes)
  let table := (schema.tables[root.table]?.map TableDef.name).getD "?"
  print (verdict style true ++ " " ++ file ++ ": " ++ table ++ " root, " ++
    formatSize bytes.size ++ ", crc32 " ++ checksumText bytes)

def isGraphic (bytes : List UInt8) : Bool := bytes.all fun b => 33 ≤ b.toNat && b.toNat < 127

def fieldLine (style : Style) (schema : Schema) (root : TableView) (members : List (String × Json))
    (f : FieldDef) (id : Nat) : String :=
  let value :=
    if f.deprecated then "deprecated"
    else ((Json.member? f.name members).map Json.text).getD "absent"
  let marker :=
    if (root.fieldPosition? (Layout.slotOf id)).isSome || !f.type.isFixedWidth then ""
    else defaultMarker style
  row style (padRight f.name 14 ++ " " ++ padRight (typeBadge style (schema.typeName f.type)) 16 ++
    " " ++ value ++ " " ++ marker)

def hexLines (style : Style) (b : Buffer) : List String :=
  (List.range ((b.size + hexRow - 1) / hexRow)).map fun i =>
    row style (hexLine style (i * hexRow) (b.extract (i * hexRow) ((i + 1) * hexRow)).toList)

def summaryLines (style : Style) (file : String) (b : Buffer) (table : TableDef) (root : Nat) :
    List String :=
  let header := match b.rootPosition? with
    | some distance => [entry style "root offset" (toString distance)]
    | none => []
  let tag := match b.identifier? with
    | some bytes =>
      if isGraphic bytes then [entry style "identifier?" (Text.decodeLossy bytes)] else []
    | none => []
  let vtable := match b.vtable? root with
    | some v => [entry style "vtable" ("@ " ++ toString v)]
    | none => []
  [top style "BUFFER", entry style "file" file, entry style "size" (formatSize b.size),
    entry style "crc32" (checksumText b)] ++ header ++ tag ++
    [entry style "root table" (table.name ++ " @ " ++ toString root)] ++ vtable

def runInspect (style : Style) (file : String) (json hex : Bool) (schemaFile : Option String)
    (checks : Checks) : Activity Unit := do
  let schema ← loadSchema schemaFile
  let bytes ← readBytes file
  let root ← orFail (.refused file) ((← verifier schema checks).verify bytes)
  let view : TableView := ⟨bytes, root.position⟩
  let contents := schema.tableJson view root.table
  if json then print (contents.pretty "")
  else
    let table ← require .noRoot schema.tables[root.table]?
    let members := match contents with
      | .object members => members
      | _ => []
    (summaryLines style file bytes table root.position).forM print
    print (middle style ("FIELDS (" ++ table.name ++ ")"))
    table.fields.toList.zipIdx.forM fun (f, id) =>
      print (fieldLine style schema view members f id)
    if hex then
      print (middle style "HEX")
      (hexLines style bytes).forM print
    print (bottom style)

def assignedValue (schema : Schema) (t : FieldType) (text : String) : Activity Value :=
  require (.invalidValue text (schema.typeName t)) (schema.parseScalar? t text)

def elementField (field : String) : FieldType → Activity FieldType
  | .vector (.scalar t) => return .scalar t
  | .vector (.enum id) => return .enum id
  | .vector _ => throw (.notScalarVector field)
  | _ => throw (.notVector field)

def assign (s : Session) (a : Assignment) (id : Nat) (t : FieldType) :
    Activity (Option Buffer) := do
  let schema := s.verifier.schema
  match a.member, a.index, t with
  | some name, none, .struct struct =>
    let d ← require (.noStruct a.field) schema.structs[struct]?
    let i ← require (.noMember d.name name) (d.memberId? name)
    let m ← require (.noMember d.name name) d.members[i]?
    return s.rootTable.setMember? id i (← assignedValue schema (.scalar m.type) a.value)
  | some _, _, _ => throw (.notStruct a.field)
  | none, none, t => return s.rootTable.setField? id (← assignedValue schema t a.value)
  | none, some i, t =>
    let element ← elementField a.field t
    return s.rootTable.setElement? id i (← assignedValue schema element a.value)

def assignment (text : String) : Activity Assignment :=
  match Assignment.ofText text with
  | .ok a => return a
  | .error .noValue => throw (.noValue text)
  | .error .badIndex => throw (.badIndex text)

def applyAll (table : TableDef) : Session → List String → Activity Session
  | s, [] => return s
  | s, text :: rest => do
    let a ← assignment text
    let id ← require (.noField table.name a.field) (table.fieldId? a.field)
    let f ← require (.noField table.name a.field) table.fields[id]?
    let after ← require (.notStored text) (← assign s a id f.type)
    print ("  ✓ " ++ text)
    applyAll table (s.update (some after)) rest

/-- Changes a buffer. Nothing is written unless the bytes still verify at the end. -/
def runMutate (file : String) (assignments : List String) (output schemaFile : Option String)
    (checks : Checks) : Activity Unit := do
  let schema ← loadSchema schemaFile
  let bytes ← readBytes file
  let session ← orFail (.refused file) (Session.start (← verifier schema checks) bytes)
  let table ← require .noRoot schema.tables[session.root.table]?
  let changed ← applyAll table session assignments
  let verified ← orFail .invalidated changed.reverify
  let path := output.getD file
  write path verified.buffer
  print ("✓ wrote " ++ path)

def runSchema (schemaFile : Option String) : Activity Unit := do
  print (← loadSchema schemaFile).text

def showCharacter (style : Style) (label : String) (b : Buffer) : Activity Unit := do
  let c ← orFail .unreadable (CharacterView.ofBuffer b)
  print (middle style label)
  print (entry style "name" (c.name.getD "<none>"))
  print (entry style "mana" (toString c.mana.toInt))
  print (entry style "hp" (toString c.hp.toInt))
  print (entry style "type" c.type.text)
  let inventory := (c.inventory.getD []).map fun b => toString b.toNat
  print (entry style "inventory" ("[" ++ String.intercalate ", " inventory ++ "]"))

/-- Changes that must all succeed, after which the bytes are verified again. -/
def patch (b : Buffer) (changes : List (CharacterChange × String)) : Activity Buffer := do
  let start ← orFail .unreadable (Session.start (Verifier.standard Character.schema) b)
  let changed ← changes.foldlM
    (fun s (change, failure) => do
      return s.update (some (← require (.sample failure) (change.changed? s)))) start
  return (← orFail .invalidated changed.reverify).buffer

def join (directory name : String) : String :=
  if directory.endsWith "/" then directory ++ name else directory ++ "/" ++ name

def runDemo (style : Style) (directory : Option String) : Activity Unit := do
  print (top style "FCheckFlatBuffer")
  let basic ← orFail .build Samples.basicBuffer
  print (entry style "built" (formatSize basic.size))
  print (entry style "verified"
    (verdict style ((Verifier.standard Character.schema).accepts basic)))
  showCharacter style "BASIC" basic
  let basic ← patch basic [(.inventory 1 99, "inventory[1] is out of range"),
    (.mana 123, "mana is not stored in the basic buffer"),
    (.hp 456, "hp is not stored in the basic buffer")]
  showCharacter style "BASIC after inventory[1] = 99, mana = 123, hp = 456" basic
  let advanced ← orFail .build Samples.advancedBuffer
  showCharacter style "ADVANCED" advanced
  let advanced ← patch advanced [(.hp 1234, "hp is not stored in the advanced buffer")]
  showCharacter style "ADVANCED after hp = 1234" advanced
  print (bottom style)
  match directory with
  | none => return ()
  | some path =>
    createDirectories path
    write (join path "basic.bin") basic
    write (join path "advanced.bin") advanced
    print ("✓ wrote basic.bin and advanced.bin to " ++ path)

def Command.run (style : Style) : Command → Activity Unit
  | .build input output tag force file => runBuild input output tag force file
  | .inspect path json hex file checks => runInspect style path json hex file checks
  | .verify path file checks => runVerify style path file checks
  | .mutate path assignments output file checks => runMutate path assignments output file checks
  | .schema file => runSchema file
  | .demo directory => runDemo style directory

def usage : List String := [
  "Build, verify, inspect and patch FlatBuffers-compatible buffers", "",
  "Usage: flatcheck <COMMAND>", "",
  "Commands:",
  "  build    INPUT -o OUTPUT [--identifier ID] [--force-defaults] [--schema FILE]",
  "  inspect  FILE [--json] [--hex] [--schema FILE] [checks]",
  "  verify   FILE [--schema FILE] [checks]",
  "  mutate   FILE ASSIGNMENT... [-o OUTPUT] [--schema FILE] [checks]",
  "  schema   [--schema FILE]",
  "  demo     [--out-dir DIR]", "",
  "Checks: [--max-depth N] [--max-tables N] [--no-align] [--identifier ID]"]

def run (style : Style) (args : List String) : Program UInt32 :=
  match parse args with
  | .version => .print "flatcheck 0.3.1" (.done 0)
  | .help => usage.foldr .print (.done 0)
  | .misuse => usage.foldr .printError (.done 2)
  | .command c => do
    match ← (c.run style).run with
    | .ok _ => return 0
    | .error e => .printError ("❌ " ++ e.message) (.done 1)

end FlatTable.CommandLine

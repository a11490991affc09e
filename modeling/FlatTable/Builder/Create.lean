import FlatTable.Builder.Basic
import FlatTable.Text.Utf8

/-! Strings, vectors and tables. -/
namespace FlatTable.Builder
open Layout

/-- Writes a string: its length, its bytes and a zero. -/
def createString (s : String) : Build (Ref .string) := do
  let bytes := Text.encodeUtf8 s
  align (bytes.length + 1) offsetSize
  push (bytes ++ [0])
  pushWord bytes.length
  place .string

def createVector (t : ScalarType) (items : List Value) : Build (Ref (.vector (.scalar t))) := do
  match items.find? fun v => v.type != t with
  | some bad => throw (.fieldTypeMismatch "vector element" t.name bad.type.name)
  | none =>
    let body := items.flatMap Value.bytes
    align body.length (max t.width offsetSize)
    push body
    pushWord items.length
    place (.vector (.scalar t))

def checkElements (target : ObjectKind) : List Placed → Build Unit
  | [] => return ()
  | p :: ps => do
    checkPlaced p
    if p.kind ≠ target then
      throw (.fieldTypeMismatch "vector element" target.text p.kind.text)
    checkElements target ps

def createReferenceVector (element : ElementKind) (target : ObjectKind) (items : List Placed) :
    Build (Ref (.vector element)) := do
  checkElements target items
  align (items.length * offsetSize) offsetSize
  items.reverse.forM fun p => pushReference p.rev
  pushWord items.length
  place (.vector element)

def createStringVector (items : List (Ref .string)) : Build (Ref (.vector .string)) :=
  createReferenceVector .string .string (items.map Ref.placed)

def createTableVector (items : List (Ref .table)) : Build (Ref (.vector .table)) :=
  createReferenceVector .table .table (items.map Ref.placed)

def checkSetting : Option Setting → Build Unit
  | some (.reference p) => checkPlaced p
  | _ => return ()

def isDefault (schema : Schema) (table id : Nat) (v : Value) : Bool :=
  match schema.fieldDefault? table id with
  | some d => d.numEq v
  | none => false

/-- Writes one field of a table. The result tells whether anything was written: a default value is
left out unless it is forced. -/
def pushSetting (a : TableArgs) (t : TableDef) (id : Nat) : Setting → Build Bool
  | .scalar v => do
    if isDefault a.schema a.table id v && !(← get).forceDefaults then return false
    pushValue v
    return true
  | .reference p => do
    pushReference p.rev
    return true
  | .struct values => do
    match t.fields[id]?.bind fun f => TableArgs.structOf? a.schema f.type with
    | none => throw (.unknownField t.name ("#" ++ toString id))
    | some d =>
      pushStruct d values
      return true

/-- Writes the fields from the last to the first. The result lists those written, by ascending
number, with the distance of each from the end. -/
def pushSettings (a : TableArgs) (t : TableDef) :
    List (Option Setting × Nat) → List (Nat × Nat) → Build (List (Nat × Nat))
  | [], written => return written
  | (none, _) :: rest, written => pushSettings a t rest written
  | (some s, id) :: rest, written => do
    if ← pushSetting a t id s then
      let rev := (← get).used.size
      pushSettings a t rest ((id, rev) :: written)
    else pushSettings a t rest written

/-- The entries of a vtable from field `next` on, for a table at `object` from the end. -/
def slotsFrom (object next : Nat) : List (Nat × Nat) → List Nat
  | [] => []
  | (id, rev) :: rest =>
    List.replicate (id - next) 0 ++ (object - rev) :: slotsFrom object (id + 1) rest

def pushVtable (object : Nat) (entries : List Nat) : Build Unit := do
  match Contract.checkVtable entries with
  | .error v => throw (.contract v)
  | .ok _ =>
    align (entries.length * slotSize) slotSize
    push (entries.flatMap (Bytes.encode slotSize))
    let vtable := (← get).used.size
    let back := Bytes.encode offsetSize (vtable - object)
    modify fun b => { b with used := b.used.overwrite (vtable - object) back }

def createTable (a : TableArgs) : Build (Ref .table) := do
  match a.schema.tables[a.table]? with
  | none => throw (.unknownTable a.table)
  | some t =>
    a.settings.toList.forM checkSetting
    let start := (← get).used.size
    let written ← pushSettings a t a.settings.toList.zipIdx.reverse []
    align offsetSize offsetSize
    reserve offsetSize
    let object := (← get).used.size
    let size := object - start
    if maxInline < size then throw (.tableTooLarge t.name size)
    let slots := slotsFrom object 0 written
    let vtableSize := vtableHeader + slots.length * slotSize
    if maxInline < vtableSize then throw (.tooManyFields t.name slots.length)
    pushVtable object (vtableSize :: size :: slots)
    modify fun b => { b with placed := ⟨object, .table⟩ :: b.placed }
    return ⟨object⟩

end FlatTable.Builder

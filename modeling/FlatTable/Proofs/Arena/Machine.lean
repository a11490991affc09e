import FlatTable.Proofs.Builder.History

/-! A builder that checks whatever it does. Its storage is one block of bytes with a mark where the used
ones start, and all writes go to ranges of the block. What must not happen is not an answer but a fault: a
contract that is broken, a range that is not in the block, a number that would be negative. -/
namespace FlatTable
open Layout

inductive Fault where
  | contract (v : Contract.Violation)
  | space (found requested : Nat)
  | range (start stop size : Nat)
  | length (given room : Nat)
  | index (i size : Nat)
  | below (n m : Nat)

/-- The storage of a builder as it lies in memory. The bytes from `head` on are used. -/
structure Arena where
  bytes : List UInt8
  head : Nat
  growth : Growth
  requests : Nat
  minAlign : Nat
  forceDefaults : Bool
  trailingPad : Nat
  placed : List Placed

/-- What a step may be refused with: anything but a broken contract, which is a fault. -/
def BuildError.IsAnswer : BuildError → Prop
  | contract _ => False
  | _ => True

abbrev Guarded := ExceptT {e : BuildError // e.IsAnswer} (StateT Arena (Except Fault))

def Guarded.runFrom {α : Type} (a : Arena) (steps : Guarded α) :
    Except Fault (Except BuildError α × Arena) :=
  ((ExceptT.run steps).run a).map fun (answer, a) => (answer.mapError Subtype.val, a)

namespace Arena

def ofStorage (s : Storage) : Arena :=
  ⟨s.bytes, s.bytes.length, s.growth, s.requests, 1, false, 0, []⟩

/-! ### Checks -/

def fault {α : Type} (f : Fault) : Guarded α := ExceptT.mk fun _ => .error f

def require (p : Prop) [Decidable p] (f : Fault) : Guarded Unit := if p then return () else fault f

def enforce (checked : Except Contract.Violation Unit) : Guarded Unit :=
  match checked with
  | .ok _ => return ()
  | .error v => fault (.contract v)

def minus (n m : Nat) : Guarded Nat := do
  require (m ≤ n) (.below n m)
  return n - m

def write (start stop : Nat) (bytes : List UInt8) : Guarded Unit := do
  let a ← get
  require (start ≤ stop ∧ stop ≤ a.bytes.length) (.range start stop a.bytes.length)
  require (bytes.length = stop - start) (.length bytes.length (stop - start))
  set { a with bytes := a.bytes.take start ++ bytes ++ a.bytes.drop stop }

/-- Copies parts to ranges behind `head`, each of which is told by where it starts and how long it is. -/
def writeParts (head : Nat) (parts : List (Nat × Nat × List UInt8)) : Guarded Unit :=
  parts.forM fun (offset, width, bytes) => write (head + offset) (head + offset + width) bytes

def inRow (width : Nat) (parts : List (List UInt8)) : List (Nat × Nat × List UInt8) :=
  parts.zipIdx.map fun part => (part.2 * width, width, part.1)

/-! ### Small steps -/

def usedSpace : Guarded Nat := do
  let a ← get
  minus a.bytes.length a.head

def makeRoom (want : Nat) (a : Arena) : Except Nat Unit × Arena :=
  if _h : a.head < want then
    match a.growth.answer a.requests a.bytes.length with
    | .error size => (.error size, { a with requests := a.requests + 1 })
    | .ok front =>
      let bytes := front.bytes ++ a.bytes
      let head := a.head + (bytes.length - a.bytes.length)
      makeRoom want { a with bytes, head, requests := a.requests + 1 }
  else (.ok (), a)
termination_by want - a.head
decreasing_by
  have := List.length_pos_iff.mpr front.nonempty
  simp only [List.length_append]
  omega

def growFor (want : Nat) : Guarded Unit := do
  match makeRoom want (← get) with
  | (.error size, a) =>
    set a
    throw ⟨.allocationFailed size, trivial⟩
  | (.ok _, a) => set a

def makeSpace (want : Nat) : Guarded Nat := do
  let requested := (← usedSpace) + want
  if maxBufferSize < requested then throw ⟨.bufferTooLarge requested, trivial⟩
  growFor want
  let found := (← usedSpace) + want
  require (found = requested) (.space found requested)
  let head ← minus (← get).head want
  modify fun a => { a with head }
  return head

def store (want : Nat) (fill : Nat → Guarded Unit) : Guarded Unit := do
  let head ← makeSpace want
  fill head

def align (length alignment : Nat) : Guarded Unit := do
  modify fun a => { a with minAlign := max a.minAlign alignment }
  let used ← usedSpace
  let pad := padding (used + length) alignment
  if pad ≠ 0 then
    store pad fun head => write head (head + pad) (List.replicate pad 0)
    if used = 0 then modify fun a => { a with trailingPad := pad }

def pushWord (n : Nat) : Guarded Unit := do
  align offsetSize offsetSize
  store offsetSize fun head => write head (head + offsetSize) (Bytes.encode offsetSize n)

def place (kind : ObjectKind) : Guarded (Ref kind) := do
  let rev ← usedSpace
  modify fun a => { a with placed := ⟨rev, kind⟩ :: a.placed }
  return ⟨rev⟩

def checkPlaced (p : Placed) : Guarded Unit := do
  if !p.isAmong (← get).placed then throw ⟨.unplacedOffset p.rev, trivial⟩

def pushReference (rev : Nat) : Guarded Unit := do
  align offsetSize offsetSize
  store offsetSize fun head => do
    enforce (Contract.checkReference rev (← usedSpace))
    let distance ← minus (← usedSpace) rev
    write head (head + offsetSize) (Bytes.encode offsetSize distance)

def pushValue (v : Value) : Guarded Unit := do
  align v.width v.width
  store v.width fun head => write head (head + v.width) v.bytes

/-- All bytes of a struct are cleared before its members are written. -/
def pushStruct (d : StructDef) (values : List Value) : Guarded Unit := do
  align d.size d.alignment
  store d.size fun head => do
    write head (head + d.size) (List.replicate d.size 0)
    writeParts head ((values.zip d.offsets).map fun (v, offset) => (offset, v.width, v.bytes))

/-! ### Strings and vectors -/

def createString (s : String) : Guarded (Ref .string) := do
  let bytes := Text.encodeUtf8 s
  align (bytes.length + 1) offsetSize
  store (bytes.length + 1) fun head => do
    write head (head + bytes.length) bytes
    write (head + bytes.length) (head + bytes.length + 1) [0]
  pushWord bytes.length
  place .string

def createVector (t : ScalarType) (items : List Value) : Guarded (Ref (.vector (.scalar t))) := do
  match items.find? fun v => v.type != t with
  | some bad => throw ⟨.fieldTypeMismatch "vector element" t.name bad.type.name, trivial⟩
  | none =>
    align (items.length * t.width) (max t.width offsetSize)
    store (items.length * t.width) fun head => writeParts head (inRow t.width (items.map Value.bytes))
    pushWord items.length
    place (.vector (.scalar t))

def checkElements (target : ObjectKind) : List Placed → Guarded Unit
  | [] => return ()
  | p :: ps => do
    checkPlaced p
    if p.kind ≠ target then
      throw ⟨.fieldTypeMismatch "vector element" target.text p.kind.text, trivial⟩
    checkElements target ps

def createReferenceVector (element : ElementKind) (target : ObjectKind) (items : List Placed) :
    Guarded (Ref (.vector element)) := do
  checkElements target items
  align (items.length * offsetSize) offsetSize
  items.reverse.forM fun p => pushReference p.rev
  pushWord items.length
  place (.vector element)

/-! ### Tables -/

def checkSetting : Option Setting → Guarded Unit
  | some (.reference p) => checkPlaced p
  | _ => return ()

def pushSetting (args : TableArgs) (t : TableDef) (id : Nat) : Setting → Guarded Bool
  | .scalar v => do
    if Builder.isDefault args.schema args.table id v && !(← get).forceDefaults then return false
    pushValue v
    return true
  | .reference p => do
    pushReference p.rev
    return true
  | .struct values => do
    match t.fields[id]?.bind fun f => TableArgs.structOf? args.schema f.type with
    | none => throw ⟨.unknownField t.name ("#" ++ toString id), trivial⟩
    | some d =>
      pushStruct d values
      return true

def pushSettings (args : TableArgs) (t : TableDef) :
    List (Option Setting × Nat) → List (Nat × Nat) → Guarded (List (Nat × Nat))
  | [], fields => return fields
  | (none, _) :: rest, fields => pushSettings args t rest fields
  | (some s, id) :: rest, fields => do
    if ← pushSetting args t id s then
      let rev ← usedSpace
      pushSettings args t rest (fields ++ [(id, rev)])
    else pushSettings args t rest fields

/-- Sets an entry of a vtable, of which only 16 bits are kept. -/
def setEntry (vtable : List Nat) (i n : Nat) : Guarded (List Nat) := do
  require (i < vtable.length) (.index i vtable.length)
  return vtable.set i (n % 2 ^ 16)

def slotCount (fields : List (Nat × Nat)) : Nat := (fields.map fun field => field.1 + 1).foldl max 0

def vtableOf (object size vtableSize : Nat) (fields : List (Nat × Nat)) : Guarded (List Nat) := do
  let vtable ← setEntry (List.replicate (vtableHeader / slotSize + slotCount fields) 0) 0 vtableSize
  let vtable ← setEntry vtable 1 size
  fields.foldlM (fun vtable (id, rev) => do
    setEntry vtable (vtableHeader / slotSize + id) (← minus object rev)) vtable

def pushVtable (object vtableSize : Nat) (vtable : List Nat) : Guarded Unit := do
  enforce (Contract.checkVtable vtable)
  align vtableSize slotSize
  store vtableSize fun head =>
    writeParts head (inRow slotSize (vtable.map (Bytes.encode slotSize)))
  let used ← usedSpace
  let position ← minus (← get).bytes.length object
  let back ← minus used object
  write position (position + offsetSize) (Bytes.encode offsetSize back)

def createTable (args : TableArgs) : Guarded (Ref .table) := do
  match args.schema.tables[args.table]? with
  | none => throw ⟨.unknownTable args.table, trivial⟩
  | some t =>
    args.settings.toList.forM checkSetting
    let start ← usedSpace
    let fields ← pushSettings args t args.settings.toList.zipIdx.reverse []
    align offsetSize offsetSize
    discard (makeSpace offsetSize)
    let object ← usedSpace
    let size ← minus object start
    if maxInline < size then throw ⟨.tableTooLarge t.name size, trivial⟩
    let vtableSize := vtableHeader + slotCount fields * slotSize
    if maxInline < vtableSize then throw ⟨.tooManyFields t.name (slotCount fields), trivial⟩
    pushVtable object vtableSize (← vtableOf object size vtableSize fields)
    modify fun a => { a with placed := ⟨object, .table⟩ :: a.placed }
    return ⟨object⟩

/-! ### Finishing -/

def pushRoot (root : Ref .table) (identifier : Option Identifier) : Guarded Unit := do
  checkPlaced root.placed
  let tag := (identifier.map Identifier.bytes).getD []
  align (offsetSize + tag.length) (max (← get).minAlign offsetSize)
  if identifier.isSome then
    store identifierSize fun head => write head (head + identifierSize) tag
  pushReference root.rev

def finished : Guarded FinishedBuffer := do
  let a ← get
  let stop ← minus a.bytes.length a.trailingPad
  require (a.head ≤ stop ∧ stop ≤ a.bytes.length) (.range a.head stop a.bytes.length)
  return ⟨((a.bytes.take stop).drop a.head).toArray, a.bytes.length, a.head, stop⟩

def finish (root : Ref .table) (identifier : Option Identifier) : Guarded FinishedBuffer := do
  pushRoot root identifier
  finished

/-! ### Runs -/

def add (args : TableArgs) (add : Add) : Guarded TableArgs := do
  match args.fieldId add.name, add.apply args with
  | .ok id, .ok added =>
    require (id < args.settings.size) (.index id args.settings.size)
    return added
  | _, _ => return args

def addAll (args : TableArgs) (adds : List Add) : Guarded TableArgs := adds.foldlM add args

def perform (s : Schema) : Step → Guarded Unit
  | .string text => discard (createString text)
  | .vector t items => discard (createVector t items)
  | .strings items => discard (createReferenceVector .string .string (items.map Ref.placed))
  | .tables items => discard (createReferenceVector .table .table (items.map Ref.placed))
  | .table id adds => do
    match TableArgs.new s id with
    | .error _ => throw ⟨.unknownTable id, trivial⟩
    | .ok args => discard (createTable (← addAll args adds))
  | .force on => modify fun a => { a with forceDefaults := on }

def step (s : Schema) (a : Arena) (step : Step) : Except Fault Arena :=
  ((perform s step).runFrom a).map Prod.snd

def run (s : Schema) (a : Arena) (steps : List Step) : Except Fault Arena := steps.foldlM (step s) a

end Arena
end FlatTable

import FlatTable.Builder.Finish
import FlatTable.Character.Basic
import FlatTable.Mutate.Session

/-! Characters as messages: their schema, building them, and reading and changing them in place. -/
namespace FlatTable

namespace ScalarType

def ofBitVec {n : Nat} (t : ScalarType) (b : BitVec n) : Value := t.value b.toNat

end ScalarType

namespace Character
open Builder

def typeField : Nat := 4
def inventoryField : Nat := 3
def nameField : Nat := 2
def hpField : Nat := 1
def manaField : Nat := 0

def int (i : Int32) : Value := ScalarType.int.ofBitVec i.toBitVec

def typeValue (t : CharacterType) : Value := ScalarType.byte.ofBitVec t.code.toBitVec

def schema : Schema where
  nameSpace := "TestingFlatBuffers.FCheckFlatBuffer"
  attributes := ["priority"]
  enums := #[⟨"ECharacterType", .byte,
    CharacterType.named.map fun (name, t) => ⟨name, t.code.toInt⟩⟩]
  structs := #[]
  tables := #[⟨"FCheckFlatBuffer", #[
    { FieldDef.plain "mana" (.scalar .int) with declared := some (int standard.mana) },
    { FieldDef.plain "hp" (.scalar .int) with declared := some (int standard.hp) },
    .plain "name" .string,
    .plain "inventory" (.vector (.scalar .ubyte)),
    .plain "chtype" (.enum 0)]⟩]
  root := some 0

/-- A character whose name and inventory have been placed. -/
structure Args where
  mana : Int32
  hp : Int32
  name : Option (Ref .string)
  inventory : Option (Ref (.vector (.scalar .ubyte)))
  type : CharacterType

def Args.standard : Args :=
  ⟨Character.standard.mana, Character.standard.hp, none, none, Character.standard.type⟩

def setOptional {kind : ObjectKind} (a : TableArgs) (id : Nat) :
    Option (Ref kind) → Except BuildError TableArgs
  | some r => a.setReference id r.placed
  | none => .ok a

def create (args : Args) : Build (Ref .table) := do
  let a ← TableArgs.new schema 0
  let a ← a.setScalar manaField (int args.mana)
  let a ← a.setScalar hpField (int args.hp)
  let a ← setOptional a nameField args.name
  let a ← setOptional a inventoryField args.inventory
  let a ← a.setScalar typeField (typeValue args.type)
  createTable a

def pack (c : Character) : Build (Ref .table) := do
  let name ← c.name.mapM createString
  let inventory ← c.inventory.mapM fun bytes =>
    createVector .ubyte (bytes.map fun b => ScalarType.ubyte.value b.toNat)
  create ⟨c.mana, c.hp, name, inventory, c.type⟩

def toBuffer (c : Character) : Except BuildError Buffer :=
  let steps : Build FinishedBuffer := do
    let root ← pack c
    finish root none
  ((steps.runFrom (Builder.withCapacity 0)).1).map FinishedBuffer.data

end Character

structure CharacterView where
  table : TableView

namespace CharacterView
open Layout Character

def slotOfMana : Nat := slotOf manaField
def slotOfHp : Nat := slotOf hpField
def slotOfName : Nat := slotOf nameField
def slotOfInventory : Nat := slotOf inventoryField
def slotOfType : Nat := slotOf typeField

def mana (c : CharacterView) : Int32 :=
  .ofNat (c.table.scalar slotOfMana (int standard.mana)).pattern

def hp (c : CharacterView) : Int32 :=
  .ofNat (c.table.scalar slotOfHp (int standard.hp)).pattern

def name (c : CharacterView) : Option String := c.table.string? slotOfName

def inventory (c : CharacterView) : Option (List UInt8) :=
  (c.table.vector? slotOfInventory (.scalar .ubyte)).map fun v =>
    (v.buffer.extract v.start (v.start + v.length)).toList

def type (c : CharacterView) : CharacterType :=
  ⟨.ofNat (c.table.scalar slotOfType (typeValue .useDefault)).pattern⟩

def unpack (c : CharacterView) : Character := ⟨c.mana, c.hp, c.name, c.inventory, c.type⟩

def ofBuffer (b : Buffer) : Except VerifyError CharacterView := do
  let root ← (Verifier.standard schema).verify b
  return ⟨⟨b, root.position⟩⟩

def ofSession (s : Session) : CharacterView := ⟨s.rootView⟩

end CharacterView

inductive CharacterChange where
  | mana (i : Int32)
  | hp (i : Int32)
  | type (t : CharacterType)
  | inventory (index : Nat) (byte : UInt8)
  | field (id : Nat) (v : Value)

namespace CharacterChange
open Layout Character

def changed? (s : Session) : CharacterChange → Option Buffer
  | mana i => s.rootTable.setSlot? (slotOf manaField) (int i)
  | hp i => s.rootTable.setSlot? (slotOf hpField) (int i)
  | type t => s.rootTable.setSlot? (slotOf typeField) (typeValue t)
  | inventory i byte => do
    let v ← s.rootTable.vectorOf? inventoryField .ubyte
    return (← v.set? i (ScalarType.ubyte.value byte.toNat)).buffer
  | field id v => s.rootTable.setField? id v

end CharacterChange
end FlatTable

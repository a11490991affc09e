import FlatTable.Character.Message
import FlatTable.Convert.Import

/-! Sample messages that use every kind of field. -/
namespace FlatTable.Samples
open Ieee

def basicCharacter : Character :=
  ⟨300, 200, some "UnrealMonster_Basic", some [10, 20, 30, 40, 50], .player⟩

def advancedCharacter : Character :=
  ⟨999, 888, some "UnrealMonster_Advanced", some [100, 101, 102, 103], .ai⟩

def stats : TableDef :=
  ⟨"Stats", #[
    .plain "flag" (.scalar .bool), .plain "b" (.scalar .byte), .plain "ub" (.scalar .ubyte),
    .plain "s" (.scalar .short), .plain "us" (.scalar .ushort), .plain "i" (.scalar .int),
    .plain "ui" (.scalar .uint), .plain "l" (.scalar .long), .plain "ul" (.scalar .ulong),
    .plain "f" (.scalar .float), .plain "d" (.scalar .double)]⟩

def item : TableDef :=
  ⟨"Item", #[
    .plain "name" .string,
    { FieldDef.plain "weight" (.scalar .float) with
      declared := some (ScalarType.float.value (Format.single.ofNat 1)) }]⟩

def hero : TableDef :=
  ⟨"Hero", #[
    .plain "name" .string,
    { FieldDef.plain "level" (.scalar .short) with declared := some (ScalarType.short.value 1) },
    .plain "class" (.enum 0),
    .plain "stats" (.table 0),
    .plain "items" (.vector (.table 1)),
    .plain "tags" (.vector .string),
    .plain "path" (.vector (.scalar .ushort)),
    { FieldDef.plain "old" (.scalar .int) with deprecated := true },
    .plain "classes" (.vector (.enum 0)),
    .plain "spawn" (.struct 0)]⟩

def heroSchema : Schema where
  nameSpace := "Testing.Heroes"
  attributes := []
  enums := #[⟨"Class", .ubyte, [⟨"Warrior", 0⟩, ⟨"Mage", 1⟩, ⟨"Rogue", 2⟩]⟩]
  structs := #[StructDef.vec3]
  tables := #[stats, item, hero]
  root := some 2

def quotient (num : Int) (den : Nat) : Json :=
  .real (Format.double.withSign (num < 0) (Format.double.roundRatio num.natAbs den))

def itemJson (name : String) (weight : Json) : Json :=
  .object [("name", .string name), ("weight", weight)]

def statsJson : Json :=
  .object [
    ("b", .integer (-5)), ("d", quotient (-12500000000) 1), ("f", quotient 1 2), ("flag", .bool true),
    ("i", .integer (-70000)), ("l", .integer (-9000000000)), ("s", .integer (-300)), ("ub", .integer 200),
    ("ui", .integer 4000000000), ("ul", .integer (Nat.pow 2 64 - 1)), ("us", .integer 60000)]

/-- The members of every object are sorted by name, as they are shown. -/
def heroJson : Json :=
  .object [
    ("class", .string "Mage"),
    ("classes", .array [.string "Warrior", .string "Rogue"]),
    ("items", .array [itemJson "staff" (quotient 9 4), itemJson "ring" (quotient 1 1)]),
    ("level", .integer 12),
    ("name", .string "Aria"),
    ("path", .array [.integer 1, .integer 2, .integer 65535]),
    ("spawn", .object [("x", quotient 3 2), ("y", quotient (-2) 1), ("z", quotient 1 4)]),
    ("stats", statsJson),
    ("tags", .array [.string "caster", .string "", .string "elf"])]

def basicBuffer : Except BuildError Buffer := basicCharacter.toBuffer

def advancedBuffer : Except BuildError Buffer := advancedCharacter.toBuffer

def heroBuffer : Except BuildError Buffer := heroSchema.bufferOfJson heroJson

end FlatTable.Samples

import FlatTable.Json.Record
import FlatTable.Text.Scope

/-! Characters of a game, as plain records. -/
namespace FlatTable

/-- What controls a character. Numbers without a name are kept as they are. -/
structure CharacterType where
  code : Int8
  deriving DecidableEq

namespace CharacterType

def useDefault : CharacterType := ⟨0⟩
def player : CharacterType := ⟨1⟩
def ai : CharacterType := ⟨2⟩
def hidden : CharacterType := ⟨3⟩

def named : List (String × CharacterType) :=
  [("UseDefault", useDefault), ("Player", player), ("AI", ai), ("Hidden", hidden)]

def name? (t : CharacterType) : Option String := (named.find? fun n => n.2 == t).map Prod.fst

/-- The type with this name, which may come with scopes. -/
def ofName? (name : String) : Option CharacterType :=
  (named.find? fun n => n.1 == Text.stripScope name).map Prod.snd

def text (t : CharacterType) : String :=
  t.name?.getD ("<unknown " ++ toString t.code.toInt ++ ">")

end CharacterType

structure Character where
  mana : Int32
  hp : Int32
  name : Option String
  inventory : Option (List UInt8)
  type : CharacterType
  deriving DecidableEq

namespace Character
open Json Document

def standard : Character := ⟨150, 100, none, none, .useDefault⟩

def toJson (c : Character) : Json :=
  .object [
    ("mana", .integer c.mana.toInt),
    ("hp", .integer c.hp.toInt),
    ("name", (c.name.map Json.string).getD .null),
    ("inventory",
      (c.inventory.map fun bs => Json.array (bs.map fun b => .integer b.toNat)).getD .null),
    ("chtype", .integer c.type.code.toInt)]

def int32? (d : Document) : Option Int32 :=
  (d.integerIn? (-(Nat.pow 2 31)) (Nat.pow 2 31)).map Int32.ofInt

def int8? (d : Document) : Option Int8 := (d.integerIn? (-128) 128).map Int8.ofInt

def byte? (d : Document) : Option UInt8 := (d.integerIn? 0 256).map fun i => UInt8.ofNat i.toNat

/-- Reads a character. Members that are left out have their defaults, and unknown ones are
skipped. -/
def read? (d : Document) : Option Character := do
  match ← d.record? ["mana", "hp", "name", "inventory", "chtype"] false with
  | [mana, hp, name, inventory, type] =>
    return ⟨← orElse? int32? standard.mana mana, ← orElse? int32? standard.hp hp,
      ← orElse? (optional? string?) standard.name name,
      ← orElse? (optional? (list? byte?)) standard.inventory inventory,
      ← orElse? (fun d => (int8? d).map CharacterType.mk) standard.type type⟩
  | _ => none

def ofText? (text : String) : Option Character := (Document.ofText? text).bind read?

end Character
end FlatTable

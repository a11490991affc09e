import FlatTable.Decimal.Layout
import FlatTable.Text.Quoted

/-! JSON values and their text. -/
namespace FlatTable

/-- Integers are kept apart from numbers with a fraction or an exponent, which are binary64
patterns. The members of an object are written in the order of the list. -/
inductive Json where
  | null
  | bool (b : Bool)
  | integer (i : Int)
  | real (bits : Nat)
  | string (s : String)
  | array (items : List Json)
  | object (members : List (String × Json))
  deriving Inhabited

namespace Json
open Ieee

def maxDepth : Nat := 127

def escapedChar (c : Char) : String :=
  if c = '"' then "\\\""
  else if c = '\\' then "\\\\"
  else if c = '\n' then "\\n"
  else if c = '\r' then "\\r"
  else if c = '\t' then "\\t"
  else if c.toNat = 8 then "\\b"
  else if c.toNat = 12 then "\\f"
  else if c.toNat < 32 then "\\u" ++ Text.hexPadded 4 c.toNat
  else c.toString

/-- A string in double quotes. Only quotes, backslashes and control characters are escaped. -/
def quotedText (s : String) : String :=
  "\"" ++ String.join (s.toList.map escapedChar) ++ "\""

/-- A number that is neither finite nor a number has no JSON form other than `null`. -/
def realText (bits : Nat) : String :=
  if Format.double.isFinite bits then Decimal.jsonText bits else "null"

mutual

def text : Json → String
  | null => "null"
  | bool b => if b then "true" else "false"
  | integer i => toString i
  | real bits => realText bits
  | string s => quotedText s
  | array items => "[" ++ String.intercalate "," (itemTexts items) ++ "]"
  | object members => "\x7b" ++ String.intercalate "," (memberTexts members) ++ "\x7d"

def itemTexts : List Json → List String
  | [] => []
  | j :: js => text j :: itemTexts js

def memberTexts : List (String × Json) → List String
  | [] => []
  | (name, j) :: js => (quotedText name ++ ":" ++ text j) :: memberTexts js

end

def block (indent left : String) (lines : List String) (right : String) : String :=
  if lines.isEmpty then left ++ right
  else left ++ "\n" ++ String.intercalate ",\n" lines ++ "\n" ++ indent ++ right

mutual

def pretty (indent : String) : Json → String
  | null => "null"
  | bool b => if b then "true" else "false"
  | integer i => toString i
  | real bits => realText bits
  | string s => quotedText s
  | array items => block indent "[" (prettyItems (indent ++ "  ") items) "]"
  | object members => block indent "\x7b" (prettyMembers (indent ++ "  ") members) "\x7d"

def prettyItems (indent : String) : List Json → List String
  | [] => []
  | j :: js => (indent ++ pretty indent j) :: prettyItems indent js

def prettyMembers (indent : String) : List (String × Json) → List String
  | [] => []
  | (name, j) :: js =>
    (indent ++ quotedText name ++ ": " ++ pretty indent j) :: prettyMembers indent js

end

def keepLast : List (String × Json) → List (String × Json)
  | [] => []
  | [m] => [m]
  | m :: n :: rest => if m.1 = n.1 then keepLast (n :: rest) else m :: keepLast (n :: rest)

/-- An object with its members sorted by name. Of members with one name the last counts. -/
def ofMembers (members : List (String × Json)) : Json :=
  .object (keepLast (members.mergeSort fun m n => !decide (n.1 < m.1)))

def member? (name : String) (members : List (String × Json)) : Option Json :=
  (members.find? fun m => m.1 == name).map Prod.snd

end Json
end FlatTable

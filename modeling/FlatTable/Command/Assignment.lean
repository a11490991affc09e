import FlatTable.Decimal.Read
import FlatTable.Text.Blank

/-! Assignments to fields: `field=value`, `field[index]=value` and `field.member=value`. -/
namespace FlatTable.CommandLine
open Text

structure Assignment where
  field : String
  index : Option Nat
  member : Option String
  value : String
  deriving DecidableEq

inductive AssignmentFault where
  | noValue
  | badIndex
  deriving DecidableEq

/-- A number before a closing bracket, where the text must end. -/
def index? (cs : List Char) : Option Nat :=
  if cs.getLast? = some ']' then
    (Decimal.unsigned? (trim cs.dropLast)).filter fun n => n < Nat.pow 2 64
  else none

def target? (cs : List Char) : Except AssignmentFault (List Char × Option Nat) :=
  match splitFirst? '[' cs with
  | none => .ok (cs, none)
  | some (field, rest) =>
    match index? rest with
    | some i => .ok (trim field, some i)
    | none => .error .badIndex

/-- The value may hold any characters; blanks around the parts do not count. -/
def Assignment.ofText (text : String) : Except AssignmentFault Assignment := do
  match splitFirst? '=' text.toList with
  | none => throw .noValue
  | some (left, value) =>
    let left := trim left
    let (place, member) := match splitFirst? '.' left with
      | some (place, member) => (place, some (String.ofList (trim member)))
      | none => (left, none)
    let (field, index) ← target? place
    return ⟨String.ofList field, index, member, String.ofList (trim value)⟩

end FlatTable.CommandLine

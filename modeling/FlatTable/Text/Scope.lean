/-! Scoped names: the parts of a name are separated by `::`, and the last part is the name within
its scope. -/
namespace FlatTable.Text

/-- What follows the last separator, if there is one. The separators are found from the end, so of
three colons the last two separate. -/
def lastScope? : List Char → Option (List Char)
  | [] => none
  | c :: cs =>
    match lastScope? cs with
    | some name => some name
    | none =>
      match c, cs with
      | ':', ':' :: name => some name
      | _, _ => none

def stripScope (s : String) : String :=
  match lastScope? s.toList with
  | some name => String.ofList name
  | none => s

end FlatTable.Text

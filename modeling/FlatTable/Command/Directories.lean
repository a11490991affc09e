import FlatTable.Command.Program
import FlatTable.Text.Blank

/-! Making a directory together with the missing ones on the way to it. -/
namespace FlatTable.Program

/-- Tells whether a directory is at a path. Only a directory holds a dot, which names the directory
itself and can for that reason not be made. -/
def isDirectory (path : String) : Program Bool := do
  match ← makeDirectory (path ++ "/.") done with
  | .error .occupied => return true
  | _ => return false

def ensureDirectory (path : String) : Program (Except FileError Unit) := do
  match ← makeDirectory path done with
  | .ok () => return .ok ()
  | .error e => return if ← isDirectory path then .ok () else .error e

/-- Makes the directory at the first path. If something on the way to it is missing, the others are
made before it. -/
def ensureFirst : List String → Program (Except FileError Unit)
  | [] => return .ok ()
  | path :: above => do
    match ← ensureDirectory path with
    | .error .notFound =>
      match ← ensureFirst above with
      | .ok () => ensureDirectory path
      | failed => return failed
    | result => return result

def pathsTo (path : String) : List String :=
  let root := if path.startsWith "/" then "/" else ""
  let names := (Text.splitAll '/' path).filter fun name => name ≠ "" ∧ name ≠ "."
  let above := (List.range names.length).tail.reverse.map names.take
  path :: above.map fun names => root ++ String.intercalate "/" names

def ensureDirectories (path : String) : Program (Except FileError Unit) :=
  ensureFirst (pathsTo path)

end FlatTable.Program

import FlatTable.Command.Program
import FlatTable.Text.Blank

/-! A working directory as a value, and programs run in it. -/
namespace FlatTable

/-- The names that lead from the working directory to a file or directory. What lies outside begins
with steps up, or with the name of the root. -/
abbrev Path := List String

def rootDirectory : Path := ["/"]

/-- Does a path consist of steps up from the working directory? Then it is a directory. -/
def isAbove (p : Path) : Bool := p.all (· == "..")

def isOutside (p : Path) : Bool :=
  match p with
  | [] => false
  | name :: _ => name == ".." || name == "/"

inductive Entry where
  | file (bytes : Buffer)
  | directory
  deriving DecidableEq

structure FileSystem where
  entries : List (Path × Entry)

namespace FileSystem

/-- The working directory and those above it are always there. -/
def entry? (fs : FileSystem) (p : Path) : Option Entry :=
  if isAbove p ∨ p = rootDirectory then some .directory else fs.entries.lookup p

def set (fs : FileSystem) (p : Path) (e : Entry) : FileSystem :=
  ⟨(p, e) :: fs.entries.filter fun old => old.1 != p⟩

def parent (p : Path) : Path :=
  if isAbove p then p ++ [".."] else if p = rootDirectory then p else p.dropLast

def nameLimit : Nat := 255

def pathLimit : Nat := 4095

def enter (fs : FileSystem) (p : Path) (name : String) : Except FileError Path :=
  match fs.entry? p with
  | none => .error .notFound
  | some (.file _) => .error .notDirectory
  | some .directory =>
    if name = "" ∨ name = "." then .ok p
    else if name = ".." then .ok (parent p)
    else if name.utf8ByteSize > nameLimit then .error .nameTooLong
    else .ok (p ++ [name])

def start (path : String) : Path := if path.toList.head? = some '/' then rootDirectory else []

/-- The names in a path. A slash at the end leaves an empty one there. -/
def names (path : String) : Except FileError (List String) :=
  if path = "" then .error .notFound
  else if path.utf8ByteSize > pathLimit then .error .nameTooLong
  else .ok (Text.splitAll '/' path)

def locate (fs : FileSystem) (path : String) : Except FileError Path := do
  (← names path).foldlM fs.enter (start path)

/-- The place of the last name of a path, whose directory must be there. The slashes at the end
of the path are left out. -/
def locateLast (fs : FileSystem) (path : String) : Except FileError (Path × String) := do
  let given ← names path
  let kept := (given.reverse.dropWhile (· = "")).reverse
  let holder ← (kept.dropLast ++ ["."]).foldlM fs.enter (start path)
  return (holder, kept.getLastD ".")

def read (fs : FileSystem) (path : String) : Except FileError Buffer := do
  match fs.entry? (← fs.locate path) with
  | some (.file bytes) => return bytes
  | some .directory => throw .isDirectory
  | none => throw .notFound

/-- Writes a file in a directory that is there. A slash at the end asks for a directory. -/
def write (fs : FileSystem) (path : String) (bytes : Buffer) : Except FileError FileSystem := do
  let (holder, name) ← fs.locateLast path
  if path.toList.getLast? = some '/' then throw .isDirectory
  let p ← fs.enter holder name
  if fs.entry? p = some .directory then throw .isDirectory
  return fs.set p (.file bytes)

def makeDirectory (fs : FileSystem) (path : String) : Except FileError FileSystem := do
  let (holder, name) ← fs.locateLast path
  let p ← fs.enter holder name
  if (fs.entry? p).isSome then throw .occupied
  return fs.set p .directory

def ofFiles (files : List (String × Buffer)) : FileSystem :=
  files.foldl (fun fs (name, bytes) =>
    let p := Text.splitAll '/' name
    let parents := (List.range p.length).tail.map p.take
    let fs := parents.foldl (fun fs d => fs.set d .directory) fs
    fs.set p (.file bytes)) ⟨[]⟩

def file? (fs : FileSystem) (p : Path) : Option Buffer :=
  match fs.entry? p with
  | some (.file bytes) => some bytes
  | _ => none

def changedSince (fs before : FileSystem) : List (Path × Buffer) :=
  fs.entries.filterMap fun (p, _) =>
    match fs.file? p with
    | some bytes =>
      if isOutside p ∨ before.file? p = some bytes then none else some (p, bytes)
    | none => none

end FileSystem

structure World where
  files : FileSystem
  input : Buffer
  output : List String
  errors : List String

namespace Program

def run {α : Type} : Program α → World → α × World
  | done a, w => (a, w)
  | readFile path next, w => (next (w.files.read path)).run w
  | writeFile path bytes next, w =>
    match w.files.write path bytes with
    | .ok files => (next (.ok ())).run { w with files := files }
    | .error e => (next (.error e)).run w
  | makeDirectory path next, w =>
    match w.files.makeDirectory path with
    | .ok files => (next (.ok ())).run { w with files := files }
    | .error e => (next (.error e)).run w
  | readInput next, w => (next w.input).run w
  | print line next, w => next.run { w with output := line :: w.output }
  | printError line next, w => next.run { w with errors := line :: w.errors }

end Program
end FlatTable

import FlatTable.Bytes

/-! Programs that read and write files, described by what they ask for, so that they can be run on
a file system that is a value as well as on a real one. -/
namespace FlatTable

inductive FileError where
  | notFound
  | occupied
  | notDirectory
  | isDirectory
  | nameTooLong
  | other (text : String)
  deriving DecidableEq

def FileError.message : FileError → String
  | notFound => "No such file or directory (os error 2)"
  | occupied => "File exists (os error 17)"
  | notDirectory => "Not a directory (os error 20)"
  | isDirectory => "Is a directory (os error 21)"
  | nameTooLong => "File name too long (os error 36)"
  | other text => text

inductive Program (α : Type) where
  | done (a : α)
  | readFile (path : String) (next : Except FileError Buffer → Program α)
  | writeFile (path : String) (bytes : Buffer) (next : Except FileError Unit → Program α)
  | makeDirectory (path : String) (next : Except FileError Unit → Program α)
  | readInput (next : Buffer → Program α)
  | print (line : String) (next : Program α)
  | printError (line : String) (next : Program α)

namespace Program

def bind {α β : Type} (p : Program α) (f : α → Program β) : Program β :=
  match p with
  | done a => f a
  | readFile path next => .readFile path fun r => (next r).bind f
  | writeFile path bytes next => .writeFile path bytes fun r => (next r).bind f
  | makeDirectory path next => .makeDirectory path fun r => (next r).bind f
  | readInput next => .readInput fun r => (next r).bind f
  | print line next => .print line (next.bind f)
  | printError line next => .printError line (next.bind f)

instance : Monad Program where
  pure := done
  bind := bind

end Program
end FlatTable

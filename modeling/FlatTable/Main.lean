import FlatTable.Command.Run

/-! The command line on a real file system. -/
namespace FlatTable

/-- How a failed operation on a file is named. Some operations give the negated code. -/
def FileError.ofIO : IO.Error → FileError
  | .noFileOrDirectory .. => .notFound
  | .alreadyExists .. => .occupied
  | e@(.inappropriateType _ code _) =>
    if code = 20 ∨ code = -20 then .notDirectory
    else if code = 21 ∨ code = -21 then .isDirectory
    else .other (toString e)
  | e@(.invalidArgument _ code _) =>
    if code = 36 ∨ code = -36 then .nameTooLong else .other (toString e)
  | e => .other (toString e)

def attempt {α : Type} (action : IO α) : IO (Except FileError α) := do
  try return .ok (← action)
  catch e => return .error (.ofIO e)

namespace Program

def perform {α : Type} : Program α → IO α
  | done a => return a
  | readFile path next => do
    (next (← attempt do return (← IO.FS.readBinFile path).data)).perform
  | writeFile path bytes next => do
    (next (← attempt (IO.FS.writeBinFile path ⟨bytes⟩))).perform
  | makeDirectory path next => do
    (next (← attempt (IO.FS.createDir path))).perform
  | readInput next => do (next (← (← IO.getStdin).readBinToEnd).data).perform
  | print line next => do
    IO.println line
    next.perform
  | printError line next => do
    IO.eprintln line
    next.perform

end Program

def outputStyle : IO Terminal.Style := do
  if (← IO.getEnv "NO_COLOR").isSome || !(← (← IO.getStdout).isTty) then return .plain
  return .colored (.detect (← IO.getEnv "FLATCHECK_THEME") (← IO.getEnv "COLORFGBG"))

end FlatTable

def main (args : List String) : IO UInt32 := do
  (FlatTable.CommandLine.run (← FlatTable.outputStyle) args).perform

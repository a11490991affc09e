import FlatTable.Decimal.Read
import FlatTable.Verify.Basic

/-! The command line: commands, their options, and how they are read. -/
namespace FlatTable.CommandLine

structure Checks where
  maxDepth : Nat
  maxTables : Nat
  noAlign : Bool
  identifier : Option String

inductive Command where
  | build (input output : String) (identifier : Option String) (forceDefaults : Bool)
      (schema : Option String)
  | inspect (file : String) (json hex : Bool) (schema : Option String) (checks : Checks)
  | verify (file : String) (schema : Option String) (checks : Checks)
  | mutate (file : String) (assignments : List String) (output schema : Option String)
      (checks : Checks)
  | schema (schema : Option String)
  | demo (outDir : Option String)

inductive Invocation where
  | command (c : Command)
  | version
  | help
  | misuse

inductive ValueKind where
  | text
  | path
  | number

def number? (text : String) : Option Nat :=
  (Decimal.unsigned? text.toList).filter fun n => n < Nat.pow 2 64

/-- A path is not empty. -/
def ValueKind.accepts : ValueKind → String → Bool
  | text, _ => true
  | path, value => value ≠ ""
  | number, value => (number? value).isSome

/-- What a command takes: flags, options with a value, and values by their place. What comes after
the places is of the kind `rest`, if anything can. -/
structure Grammar where
  flags : List String
  options : List (String × ValueKind)
  places : List ValueKind
  rest : Option ValueKind

def Grammar.place? (g : Grammar) (i : Nat) : Option ValueKind := g.places[i]?.or g.rest

/-- Arguments that have been read. An option that waits for its value is `pending`, and after a
double hyphen nothing is an option any more. -/
structure Scan where
  positionals : List String
  values : List (String × String)
  flags : List String
  pending : Option (String × ValueKind)
  literal : Bool

def Scan.start : Scan := ⟨[], [], [], none, false⟩

inductive Stop where
  | help
  | misuse

/-- Gives an option its value. No option can be given twice. -/
def Scan.setValue (s : Scan) (name : String) (kind : ValueKind) (value : String) :
    Except Stop Scan :=
  if (s.values.lookup name).isSome || !kind.accepts value then .error .misuse
  else .ok { s with values := (name, value) :: s.values, pending := none }

def Scan.addFlag (s : Scan) (name : String) : Except Stop Scan :=
  if s.flags.contains name then .error .misuse else .ok { s with flags := name :: s.flags }

def Scan.addPositional (g : Grammar) (s : Scan) (value : String) : Except Stop Scan :=
  match g.place? s.positionals.length with
  | some kind =>
    if kind.accepts value then .ok { s with positionals := s.positionals ++ [value] }
    else .error .misuse
  | none => .error .misuse

def splitValue (cs : List Char) : String × Option String :=
  let rest := cs.dropWhile (· != '=')
  (String.ofList (cs.takeWhile (· != '=')),
    if rest.isEmpty then none else some (String.ofList rest.tail))

def Scan.long (g : Grammar) (s : Scan) (cs : List Char) : Except Stop Scan :=
  match splitValue cs with
  | (name, value) =>
    match g.options.lookup name, value with
    | some kind, some v => s.setValue name kind v
    | some kind, none => .ok { s with pending := some (name, kind) }
    | none, some _ => .error .misuse
    | none, none =>
      if name = "help" then .error .help
      else if g.flags.contains name then s.addFlag name
      else .error .misuse

/-- An argument behind one hyphen. Only the output and the help have a short name. -/
def Scan.short (g : Grammar) (s : Scan) : List Char → Except Stop Scan
  | 'h' :: _ => .error .help
  | 'o' :: rest =>
    match g.options.lookup "output", rest with
    | none, _ => .error .misuse
    | some kind, [] => .ok { s with pending := some ("output", kind) }
    | some kind, '=' :: v => s.setValue "output" kind (String.ofList v)
    | some kind, v => s.setValue "output" kind (String.ofList v)
  | _ => .error .misuse

def Scan.step (g : Grammar) (s : Scan) (arg : String) : Except Stop Scan :=
  if s.literal then s.addPositional g arg
  else
    match s.pending, arg.toList with
    | some _, '-' :: _ :: _ => .error .misuse
    | some (name, kind), _ => s.setValue name kind arg
    | none, ['-', '-'] => .ok { s with literal := true }
    | none, '-' :: '-' :: cs => s.long g cs
    | none, '-' :: c :: cs => s.short g (c :: cs)
    | none, _ => s.addPositional g arg

def scan (g : Grammar) (args : List String) : Except Stop Scan := do
  let s ← args.foldlM (Scan.step g) Scan.start
  if s.pending.isSome then throw .misuse
  return s

namespace Scan

def option? (s : Scan) (name : String) : Option String := s.values.lookup name

def flag (s : Scan) (name : String) : Bool := s.flags.contains name

def checks (s : Scan) : Checks :=
  let standard := VerifierOptions.standard
  ⟨((s.option? "max-depth").bind number?).getD standard.maxDepth,
    ((s.option? "max-tables").bind number?).getD standard.maxTables,
    s.flag "no-align", s.option? "identifier"⟩

end Scan

def checkOptions : List (String × ValueKind) :=
  [("schema", .path), ("max-depth", .number), ("max-tables", .number), ("identifier", .text)]

def build (args : List String) : Except Stop Command := do
  let options := [("output", .path), ("identifier", .text), ("schema", .path)]
  let s ← scan ⟨["force-defaults"], options, [.text], none⟩ args
  match s.positionals, s.option? "output" with
  | [input], some output =>
    return .build input output (s.option? "identifier") (s.flag "force-defaults")
      (s.option? "schema")
  | _, _ => throw .misuse

def inspect (args : List String) : Except Stop Command := do
  let s ← scan ⟨["json", "hex", "no-align"], checkOptions, [.path], none⟩ args
  match s.positionals with
  | [file] => return .inspect file (s.flag "json") (s.flag "hex") (s.option? "schema") s.checks
  | _ => throw .misuse

def verify (args : List String) : Except Stop Command := do
  let s ← scan ⟨["no-align"], checkOptions, [.path], none⟩ args
  match s.positionals with
  | [file] => return .verify file (s.option? "schema") s.checks
  | _ => throw .misuse

def mutate (args : List String) : Except Stop Command := do
  let s ← scan ⟨["no-align"], ("output", .path) :: checkOptions, [.path], some .text⟩ args
  match s.positionals with
  | file :: first :: rest =>
    return .mutate file (first :: rest) (s.option? "output") (s.option? "schema") s.checks
  | _ => throw .misuse

def showSchema (args : List String) : Except Stop Command := do
  return .schema ((← scan ⟨[], [("schema", .path)], [], none⟩ args).option? "schema")

def demo (args : List String) : Except Stop Command := do
  return .demo ((← scan ⟨[], [("out-dir", .path)], [], none⟩ args).option? "out-dir")

def commands : List (String × (List String → Except Stop Command)) :=
  [("build", build), ("inspect", inspect), ("verify", verify), ("mutate", mutate),
    ("schema", showSchema), ("demo", demo)]

/-- Help on one command, or on all of them. A command has no commands of its own. -/
def helpOn : List String → Invocation
  | [] => .help
  | [name] => if name = "help" ∨ (commands.lookup name).isSome then .help else .misuse
  | _ => .misuse

/-- What a command line asks for. Before the name of the command only its help and its version can
be asked for. -/
def parse : List String → Invocation
  | [] => .misuse
  | name :: args =>
    if name = "--version" ∨ name.startsWith "-V" then .version
    else if name = "--help" ∨ name.startsWith "-h" then .help
    else if name = "help" then helpOn args
    else
      match commands.lookup name with
      | none => .misuse
      | some read =>
        match read args with
        | .ok c => .command c
        | .error .help => .help
        | .error .misuse => .misuse

end FlatTable.CommandLine

import FlatTable.Convert.Import
import FlatTable.Proofs.Builder.History

/-! What a program does with a builder: one call after the other, given the offsets that earlier calls were
answered with. A call that needs an offset which was never given is not made. -/
namespace FlatTable.Script
open Builder

/-- Where a program has an offset from: a call of this run, or somewhere else. -/
inductive Source where
  | call (number : Nat)
  | foreign (p : Placed)
  deriving DecidableEq

inductive Entry where
  | scalar (name : String) (v : Value)
  | struct (name : String) (values : List Value)
  | reference (name : String) (source : Source)

inductive Call where
  | string (text : String)
  | vector (t : ScalarType) (items : List Value)
  | strings (items : List Source)
  | tables (items : List Source)
  | table (id : Nat) (entries : List Entry)
  | json (id : Nat) (value : Json)
  | force (on : Bool)
  | skip

/-- What a call was answered with, and how many bytes were used before and after it. -/
structure Answer where
  result : Except BuildError (Option Placed)
  before : Nat
  after : Nat

def Answer.offset? (a : Answer) : Option Placed := a.result.toOption.join

def Source.offset? (answers : List Answer) : Source → Option Placed
  | call number => answers[number]?.bind Answer.offset?
  | foreign p => some p

def Entry.add? (answers : List Answer) : Entry → Option Add
  | scalar name v => some (.scalar name v)
  | struct name values => some (.struct name values)
  | reference name source => (source.offset? answers).map (.reference name)

namespace Call

def vectorOf (answers : List Answer) (element : ElementKind) (target : ObjectKind)
    (items : List Source) : Build (Option Placed) :=
  match items.mapM (Source.offset? answers) with
  | none => return none
  | some offsets => do return some (← createReferenceVector element target offsets).placed

def steps (s : Schema) (answers : List Answer) : Call → Build (Option Placed)
  | string text => do return some (← createString text).placed
  | vector t items => do return some (← createVector t items).placed
  | strings items => vectorOf answers .string .string items
  | tables items => vectorOf answers .table .table items
  | table id entries =>
    match entries.mapM (Entry.add? answers) with
    | none => return none
    | some adds => do
      let a ← TableArgs.new s id
      return some (← createTable (a.addAll adds)).placed
  | json id value => do return some (← buildTable s id value).placed
  | force on => do
    modify fun b => { b with forceDefaults := on }
    return none
  | skip => return none

end Call

structure State where
  builder : Builder
  answers : List Answer

namespace State

def start (storage : Storage) : State := ⟨.ofStorage storage, []⟩

def call (s : Schema) (x : State) (c : Call) : State :=
  let (result, b) := (c.steps s x.answers).runFrom x.builder
  ⟨b, x.answers ++ [⟨result, x.builder.used.size, b.used.size⟩]⟩

theorem call_eq {s : Schema} {x : State} {c : Call} {result : Except BuildError (Option Placed)}
    {b : Builder} (ran : Build.runFrom x.builder (c.steps s x.answers) = (result, b)) :
    x.call s c = ⟨b, x.answers ++ [⟨result, x.builder.used.size, b.used.size⟩]⟩ := by
  rw [call, ran]

def play (s : Schema) (x : State) (calls : List Call) : State := calls.foldl (call s) x

def finish (x : State) (root : Ref .table) (identifier : Option Identifier) :
    Except BuildError FinishedBuffer :=
  ((Builder.finish root identifier).runFrom x.builder).1

end State
end FlatTable.Script

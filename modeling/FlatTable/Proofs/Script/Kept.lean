import FlatTable.Proofs.Convert.Normal
import FlatTable.Proofs.Json.Objects
import FlatTable.Proofs.Script.Basic

/-! Scripts without what failed. The calls that are left keep their numbers, so that offsets are still found
under them. -/
namespace FlatTable.Script
open Build Builder

variable {s : Schema}

/-! ### What is left -/

def Answer.Failed (a : Answer) : Prop := ∃ e, a.result = .error e

def Entry.refused (s : Schema) (answers : List Answer) (id : Nat) (e : Entry) : Bool :=
  match e.add? answers, TableArgs.new s id with
  | some add, .ok a => !(add.apply a).isOk
  | _, _ => false

def Call.trim (s : Schema) (answers : List Answer) : Call → Call
  | .table id entries => .table id (entries.filter fun e => !e.refused s answers id)
  | c => c

def State.keep (s : Schema) (x : State) (c : Call) : Call :=
  match (Build.runFrom x.builder (c.steps s x.answers)).1 with
  | .ok _ => c.trim s x.answers
  | .error _ => .skip

def State.kept (s : Schema) : State → List Call → List Call
  | _, [] => []
  | x, c :: rest => x.keep s c :: (x.call s c).kept s rest

/-! ### What is used as declared -/

def Call.table? : Call → Option Nat
  | .table id _ | .json id _ => some id
  | _ => none

namespace Source

/-- Is this an offset that this run is to give? Other builders' offsets mean nothing to it. -/
def Own : Source → Prop
  | call _ => True
  | foreign _ => False

instance : (source : Source) → Decidable source.Own
  | call _ => .isTrue trivial
  | foreign _ => .isFalse id

def table? (calls : List Call) : Source → Option Nat
  | call number => calls[number]?.bind Call.table?
  | foreign _ => none

def tables (calls : List Call) : Source → List Nat
  | call number =>
    match calls[number]? with
    | some (.tables items) => items.filterMap (table? calls)
    | some c => c.table?.toList
    | none => []
  | foreign _ => []

end Source

/-- The entry uses an offset of this run, and tables only where their own table is declared. -/
def Entry.Proper (s : Schema) (calls : List Call) (id : Nat) : Entry → Prop
  | .reference name source => source.Own ∧ ∀ field ∈ s.fieldNamed? id name,
      ∀ table ∈ field.2.type.tables?, ∀ found ∈ source.tables calls, found = table
  | .scalar _ _ | .struct _ _ => True

instance (s : Schema) (calls : List Call) (id : Nat) : (e : Entry) → Decidable (e.Proper s calls id)
  | .reference _ _ => inferInstanceAs (Decidable (_ ∧ ∀ field ∈ _, _))
  | .scalar _ _ | .struct _ _ => .isTrue trivial

/-- The call uses offsets of this run, tables only where their own table is declared, and JSON whose objects
are sorted by the names of their members. -/
def Call.Proper (s : Schema) (calls : List Call) : Call → Prop
  | .strings items | .tables items => ∀ item ∈ items, item.Own
  | .table id entries => ∀ e ∈ entries, e.Proper s calls id
  | .json _ value => value.Sorted
  | .string _ | .vector _ _ | .force _ | .skip => True

instance (s : Schema) (calls : List Call) : (c : Call) → Decidable (c.Proper s calls)
  | .strings items | .tables items => inferInstanceAs (Decidable (∀ item ∈ items, item.Own))
  | .table id entries => inferInstanceAs (Decidable (∀ e ∈ entries, e.Proper s calls id))
  | .json _ value => inferInstanceAs (Decidable value.Sorted)
  | .string _ | .vector _ _ | .force _ | .skip => .isTrue trivial

end FlatTable.Script

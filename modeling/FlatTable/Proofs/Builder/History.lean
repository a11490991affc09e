import FlatTable.Builder.Finish
import FlatTable.Proofs.Tally

/-! Runs of a builder: the steps, and what has been created by them. -/
namespace FlatTable

inductive Content where
  | string (s : String)
  | scalars (t : ScalarType) (items : List Value)
  | strings (items : List (Ref .string))
  | tables (items : List (Ref .table))
  | table (a : TableArgs)

def Content.kind : Content → ObjectKind
  | string _ => .string
  | scalars t _ => .vector (.scalar t)
  | strings _ => .vector .string
  | tables _ => .vector .table
  | table _ => .table

structure Creation where
  rev : Nat
  content : Content

def Creation.placed (e : Creation) : Placed := ⟨e.rev, e.content.kind⟩

/-- What has been created, the newest first. -/
abbrev History := List Creation

namespace History

def content? (h : History) (rev : Nat) : Option Content :=
  (h.find? fun e => e.rev == rev).map Creation.content

def tableAt? (h : History) (rev : Nat) : Option Nat :=
  match h.content? rev with
  | some (.table a) => some a.table
  | _ => none

/-- The tables that a setting refers to, by itself or through a vector. -/
def tablesOf (h : History) : Option Setting → List Nat
  | some (.reference p) =>
    match h.content? p.rev with
    | some (.table _) => [p.rev]
    | some (.tables items) => items.map Ref.rev
    | _ => []
  | _ => []

/-- The number of the table created at `rev`: one more than those of the tables that it refers to
together. -/
def tally (c : Tally) : History → Nat → Nat
  | [], _ => 0
  | e :: older, rev =>
    if e.rev = rev then
      match e.content with
      | .table a =>
        1 + c.all ((a.settings.toList.flatMap (tablesOf older)).map (tally c older))
      | _ => 0
    else tally c older rev

def depth (h : History) (rev : Nat) : Nat := h.tally .max rev

def visits (h : History) (rev : Nat) : Nat := h.tally .sum rev

end History

def FieldType.tables? : FieldType → Option Nat
  | .table id | .vector (.table id) => some id
  | _ => none

/-- A table refers to others only as what they were created for. -/
def Content.Typed (s : Schema) (h : History) : Content → Prop
  | table a => ∀ i < a.settings.size, ∀ f ∈ s.field? a.table i, ∀ id ∈ f.type.tables?,
      ∀ r ∈ h.tablesOf a.settings[i]?.join, h.tableAt? r = some id
  | _ => True

instance (s : Schema) (h : History) : (c : Content) → Decidable (c.Typed s h)
  | .table _ => inferInstanceAs (Decidable (∀ i < _, _))
  | .string _ | .scalars _ _ | .strings _ | .tables _ => .isTrue trivial

def History.Typed (s : Schema) (h : History) : Prop := ∀ e ∈ h, e.content.Typed s h

instance (s : Schema) (h : History) : Decidable (h.Typed s) :=
  inferInstanceAs (Decidable (∀ e ∈ h, _))

inductive Add where
  | scalar (name : String) (v : Value)
  | struct (name : String) (values : List Value)
  | reference (name : String) (p : Placed)

def Add.name : Add → String
  | scalar name _ | struct name _ | reference name _ => name

def Add.apply (a : TableArgs) : Add → Except BuildError TableArgs
  | scalar name v => a.addScalar name v
  | struct name values => a.addStruct name values
  | reference name p => a.addReference name (⟨p.rev⟩ : Ref p.kind)

/-- Adds one after the other. What is refused is left out. -/
def TableArgs.addAll (a : TableArgs) (adds : List Add) : TableArgs :=
  adds.foldl (fun a add => (add.apply a).toOption.getD a) a

/-- A step of a run. Tables are given by what the schema calls them. -/
inductive Step where
  | string (s : String)
  | vector (t : ScalarType) (items : List Value)
  | strings (items : List (Ref .string))
  | tables (items : List (Ref .table))
  | table (id : Nat) (adds : List Add)
  | force (on : Bool)

/-- A builder together with what it has created. -/
structure Construction where
  builder : Builder
  history : History

namespace Construction

def start (storage : Storage) : Construction := ⟨.ofStorage storage, []⟩

/-- Creates an object. A failure may change the builder, but creates nothing. -/
def create {kind : ObjectKind} (x : Construction) (steps : Build (Ref kind)) (content : Content) :
    Construction :=
  match Build.runFrom x.builder steps with
  | (.ok r, b) => ⟨b, ⟨r.rev, content⟩ :: x.history⟩
  | (.error _, b) => ⟨b, x.history⟩

def step (schema : Schema) (x : Construction) : Step → Construction
  | .string s => x.create (Builder.createString s) (.string s)
  | .vector t items => x.create (Builder.createVector t items) (.scalars t items)
  | .strings items => x.create (Builder.createStringVector items) (.strings items)
  | .tables items => x.create (Builder.createTableVector items) (.tables items)
  | .table id adds =>
    match TableArgs.new schema id with
    | .ok a => x.create (Builder.createTable (a.addAll adds)) (.table (a.addAll adds))
    | .error _ => x
  | .force on => { x with builder := { x.builder with forceDefaults := on } }

def run (schema : Schema) (x : Construction) (steps : List Step) : Construction :=
  steps.foldl (step schema) x

end Construction
end FlatTable

import FlatTable.Proofs.Builder.Raised
import FlatTable.Proofs.Builder.Tables
import FlatTable.Proofs.Convert.Composed

/-! A builder takes an offset if and only if it has returned it before, as that of an object of the same kind.
Given any other offset a step does nothing at all. -/
namespace FlatTable
open Layout Build

/-! ### Steps that place nothing -/

def BuildError.IsUnplaced : BuildError → Prop
  | unplacedOffset _ => True
  | _ => False

theorem BuildError.IsFull.not_isUnplaced {e : BuildError} (full : e.IsFull) : ¬ e.IsUnplaced := by
  cases e <;> simp_all [BuildError.IsFull, BuildError.IsUnplaced]

namespace Build
variable {α : Type} {b : Builder}

abbrev Trusts (steps : Build α) : Prop := Raises (fun e => ¬ e.IsUnplaced) steps

theorem Trusts.of_fails {steps : Build α} (h : ∀ b, FailsWith BuildError.IsFull steps b) : steps.Trusts :=
  fun b => (h b).mono fun _ => BuildError.IsFull.not_isUnplaced

end Build

namespace Builder
variable {b b' : Builder} {a : TableArgs} {t : TableDef}

theorem pushReference_trusts (rev : Nat) : (pushReference rev).Trusts :=
  pushReference_raises (fun _ => BuildError.IsFull.not_isUnplaced) (fun _ => id) rev

private theorem pushSetting_trusts (i : Nat) (x : Setting) : (pushSetting a t i x).Trusts := by
  have stores {steps : Build Unit} (full : ∀ b, FailsWith BuildError.IsFull steps b) :
      (steps >>= fun _ => pure true).Trusts :=
    (Trusts.of_fails full).bind fun _ _ => .of_pure true
  unfold pushSetting
  cases x with
  | scalar v =>
    refine Raises.get_bind fun b => ?_
    split
    · exact .of_pure _
    · exact stores fun _ => store_fails _ _ _
  | reference p => exact (pushReference_trusts p.rev).bind fun _ _ => .of_pure _
  | struct values =>
    dsimp only
    split
    · exact .of_throw id
    · exact stores fun _ => store_fails _ _ _

/-! ### Offsets -/

def refusal (placed offsets : List Placed) : Except BuildError Unit :=
  match offsets.find? fun p => p ∉ placed with
  | some p => .error (.unplacedOffset p.rev)
  | none => .ok ()

def Checks (offsets : List Placed) (steps : Build Unit) : Prop :=
  ∀ b : Builder, b.Listed → runFrom b steps = (refusal b.placed offsets, b)

private theorem Checks.nil : Checks [] (pure ()) := fun _ _ => rfl

private theorem Checks.append {first second : List Placed} {steps : Build Unit} {next : Unit → Build Unit}
    (checks : Checks first steps) (rest : Checks second (next ())) :
    Checks (first ++ second) (steps >>= next) := by
  intro b listed
  rw [runFrom_bind, checks b listed, refusal, refusal, List.find?_append]
  cases first.find? fun p => p ∉ b.placed with
  | some p => rfl
  | none => exact rest b listed

theorem checkPlaced_checks (p : Placed) : Checks [p] (checkPlaced p) := by
  intro b listed
  have found := Placed.isAmong_iff_mem (p := p) listed.ordered
  unfold checkPlaced
  rw [runFrom_get_bind, refusal]
  by_cases placed : p ∈ b.placed
  · have none : [p].find? (fun p => p ∉ b.placed) = none := by simpa using placed
    rw [found.mpr placed, none]
    rfl
  · have first : [p].find? (fun p => p ∉ b.placed) = some p := by simpa using placed
    rw [Bool.eq_false_iff.mpr (placed ∘ found.mp), first]
    rfl

theorem checkElements_checks {target : ObjectKind} {items : List Placed}
    (kinds : ∀ p ∈ items, p.kind = target) : Checks items (checkElements target items) := by
  induction items with
  | nil => exact .nil
  | cons p items ih =>
    obtain ⟨kind, kinds⟩ := List.forall_mem_cons.mp kinds
    unfold checkElements
    rw [if_neg (not_not.mpr kind)]
    exact (checkPlaced_checks p).append (ih kinds)

end Builder

def TableArgs.offsets (a : TableArgs) : List Placed :=
  a.settings.toList.filterMap fun
    | some (.reference p) => some p
    | _ => none

namespace Builder
variable {b b' : Builder} {a : TableArgs} {t : TableDef}

theorem checkSettings_checks (a : TableArgs) : Checks a.offsets (a.settings.toList.forM checkSetting) := by
  unfold TableArgs.offsets
  induction a.settings.toList with
  | nil => exact .nil
  | cons x settings ih =>
    rw [List.forM_eq_forM, List.forM_cons]
    cases x with
    | none => exact Checks.nil.append ih
    | some x =>
      cases x with
      | scalar v | struct values => exact Checks.nil.append ih
      | reference p => exact (checkPlaced_checks p).append ih

end Builder

/-! ### Runs -/

namespace Builder

/-- What may be asked of a builder. The offsets in it may be of any origin, and table arguments need not
fit. -/
inductive Request
  | string (text : String)
  | vector (t : ScalarType) (items : List Value)
  | references (element : ElementKind) (target : ObjectKind) (items : List Placed)
  | table (a : TableArgs)

def Request.steps : Request → Build Placed
  | string text => do return (← createString text).placed
  | vector t items => do return (← createVector t items).placed
  | references element target items => do return (← createReferenceVector element target items).placed
  | table a => do return (← createTable a).placed

/-- A run of a builder, with the objects that its steps have returned. A step that fails returns nothing,
though it may have changed the builder. -/
inductive Returned : Builder → List Placed → Prop
  | start (storage : Storage) : Returned (ofStorage storage) []
  | force {b : Builder} {returned : List Placed} (run : Returned b returned) (on : Bool) :
      Returned { b with forceDefaults := on } returned
  | step {b : Builder} {returned : List Placed} (run : Returned b returned) (request : Request) :
      Returned (runFrom b request.steps).2 ((runFrom b request.steps).1.toOption.toList ++ returned)

/-- Steps that were given these offsets refuse the first that is not among what has been returned, and then
leave the builder as it is. Otherwise none of the offsets is refused. -/
structure Admits {α : Type} (b : Builder) (returned offsets : List Placed) (steps : Build α) : Prop where
  refuses : ∀ p, offsets.find? (fun p => p ∉ returned) = some p →
    runFrom b steps = (.error (.unplacedOffset p.rev), b)
  accepts : (∀ p ∈ offsets, p ∈ returned) → ∀ rev b', runFrom b steps ≠ (.error (.unplacedOffset rev), b')

variable {b b' : Builder} {returned offsets : List Placed}

/-- Each request creates what it returns. -/
theorem Request.steps_creates (request : Request) (sound : b.Sound) :
    request.steps.Does b fun p b' => b.Creates b' p.rev p.kind := by
  have placed {kind : ObjectKind} {steps : Build (Ref kind)}
      (creates : steps.Does b fun r b' => b.Creates b' r.rev kind) :
      (do return (← steps).placed : Build Placed).Does b fun p b' => b.Creates b' p.rev p.kind :=
    creates.bind_pure fun _ _ h => h
  cases request with
  | string text => exact placed ((createString_does sound text).mono fun _ _ => And.left)
  | vector t items => exact placed ((createVector_does sound t items).mono fun _ _ => And.left)
  | references element target items =>
    exact placed ((createReferenceVector_does sound element target items).mono fun _ _ => And.left)
  | table a => exact placed (createTable_creates a)

/-- What has been returned is what has been placed. -/
theorem Returned.sound (run : Returned b returned) : b.Sound ∧ b.placed = returned := by
  induction run with
  | start storage => exact ⟨ofStorage_sound storage, rfl⟩
  | force _ on ih => exact ⟨ih.1.force on, ih.2⟩
  | @step b returned _ request ih =>
    obtain ⟨sound, same⟩ := ih
    have does := request.steps_creates sound
    cases ran : runFrom b request.steps with
    | mk result b' =>
      cases result with
      | error e =>
        obtain ⟨front, grown⟩ := does.of_error ran
        exact ⟨grown.sound sound, by rw [grown.placed, same]; rfl⟩
      | ok p =>
        have creates := does.of_ok ran
        refine ⟨creates.sound sound, ?_⟩
        obtain ⟨_, _, _, _, _, rfl⟩ := creates
        rw [← same]
        rfl

/-- Steps that only check offsets admit those that have been returned. -/
private theorem Checks.admits {check : Build Unit} (checks : Checks offsets check)
    (run : Returned b returned) : Admits b returned offsets check := by
  obtain ⟨sound, rfl⟩ := run.sound
  have checked := checks b sound.listed
  refine ⟨fun p first => ?_, fun all rev b' ran => ?_⟩
  · rw [checked, refusal, first]
  · have none : offsets.find? (fun p => p ∉ b.placed) = none :=
      List.find?_eq_none.mpr fun p member => by simpa using all p member
    rw [checked, refusal, none] at ran
    cases ran

/-- More steps may follow that refuse no offset. -/
private theorem Admits.bind {α β : Type} {steps : Build α} {f : α → Build β}
    (admits : Admits b returned offsets steps) (next : ∀ a, (f a).Trusts) :
    Admits b returned offsets (steps >>= f) := by
  refine ⟨fun p first => ?_, fun all rev b' ran => ?_⟩
  · rw [runFrom_bind, admits.refuses p first]
  · rw [runFrom_bind] at ran
    cases ran' : runFrom b steps with
    | mk result b₁ =>
      rw [ran'] at ran
      cases result with
      | error e =>
        cases ran
        exact admits.accepts all _ _ ran'
      | ok a => exact next a b₁ _ _ ran trivial

private theorem admits_references (run : Returned b returned) {element : ElementKind} {target : ObjectKind}
    {items : List Placed} (kinds : ∀ p ∈ items, p.kind = target) :
    Admits b returned items (createReferenceVector element target items) := by
  refine ((checkElements_checks kinds).admits run).bind fun _ => ?_
  refine Raises.bind (Trusts.of_fails fun _ => align_fails _ _) fun _ _ => ?_
  refine Raises.bind (Raises.forM fun p _ => pushReference_trusts p.rev) fun _ _ => ?_
  exact Trusts.of_fails fun _ => counted_fails _ _

private theorem admits_table (run : Returned b returned) {a : TableArgs} {t : TableDef}
    (known : a.schema.tables[a.table]? = some t) : Admits b returned a.offsets (createTable a) := by
  unfold createTable
  rw [known]
  refine ((checkSettings_checks a).admits run).bind fun _ => ?_
  refine Raises.get_bind fun b₁ => Raises.bind (pushSettings_raises (fun x i _ => pushSetting_trusts i x) _)
    fun written _ => ?_
  refine Raises.bind (Trusts.of_fails fun _ => align_fails _ _) fun _ _ => ?_
  refine Raises.bind (Trusts.of_fails fun _ => reserve_fails _) fun _ _ => Raises.get_bind fun b₂ => ?_
  refine .refuse (fun _ => id) fun _ => .refuse (fun _ => id) fun _ => ?_
  refine Raises.bind (fun b => pushVtable_fails (fun _ => BuildError.IsFull.not_isUnplaced) fun _ _ => id)
    fun _ _ => ?_
  exact Trusts.of_fails fun _ => (FailsWith.of_modify _).bind fun _ _ _ => .of_pure _

private theorem admits_root (run : Returned b returned) (root : Ref .table) (identifier : Option Identifier) :
    Admits b returned [root.placed] (finish root identifier) := by
  unfold finish pushRoot
  refine Admits.bind (((checkPlaced_checks _).admits run).bind fun _ => ?_) fun _ =>
    Raises.get_bind fun b₁ => .of_pure _
  refine Raises.get_bind fun b₁ => Raises.bind (Trusts.of_fails fun _ => align_fails _ _) fun _ _ => ?_
  dsimp only
  split
  · exact Raises.bind (Trusts.of_fails fun _ => push_fails _) fun _ _ => pushReference_trusts _
  · exact pushReference_trusts _

/-- Creating an object is a step of a run. -/
private theorem Returned.step_of {kind : ObjectKind} {steps : Build (Ref kind)} (run : Returned b returned)
    (request : Request) (same : request.steps = do return (← steps).placed) :
    ∃ more, Returned (runFrom b steps).2 (more ++ returned) := by
  have state : (runFrom b request.steps).2 = (runFrom b steps).2 := by
    rw [same, runFrom_bind]
    rcases runFrom b steps with ⟨_ | r, b'⟩ <;> rfl
  have after := run.step request
  rw [state] at after
  exact ⟨_, after⟩

/-- The steps lead from run to run. -/
private theorem returned_composes (s : Schema) :
    Composes s fun steps => ∀ b returned, Returned b returned →
      steps.Leaves b fun b' => ∃ more, Returned b' (more ++ returned) where
  pure _ b returned run := ⟨[], run⟩
  throw _ b returned run := ⟨[], run⟩
  bind first next b returned run := by
    refine Leaves.bind (first b returned run) fun a b' ran before => ?_
    obtain ⟨more, before⟩ := before
    obtain ⟨more', after⟩ := next a ⟨b, b', ran⟩ b' _ before
    exact ⟨more' ++ more, by rw [List.append_assoc]; exact after⟩
  string text _ _ run := run.step_of (.string text) rfl
  vector t items _ _ run := run.step_of (.vector t items) rfl
  references element target items _ _ run := run.step_of (.references element target items) rfl
  table a _ _ _ run := run.step_of (.table a) rfl

private theorem placed_of_buildTable {s : Schema} {id : Nat} {json : Json} {r : Ref .table}
    (ran : runFrom b (buildTable s id json) = (.ok r, b')) : r.placed ∈ b'.placed := by
  cases json with
  | object members =>
    rw [buildTable] at ran
    split at ran
    · exact absurd ran not_runFrom_throw_eq_ok
    · obtain ⟨_, _, _, ran⟩ := runFrom_bind_eq_ok_iff.mp ran
      obtain ⟨a, b₁, _, ran⟩ := runFrom_bind_eq_ok_iff.mp ran
      obtain ⟨_, _, _, _, _, rfl⟩ := (createTable_creates a).of_ok ran
      exact List.mem_cons_self
  | null | bool _ | integer _ | real _ | string _ | array _ =>
    rw [buildTable] at ran
    · split at ran
      all_goals exact absurd ran not_runFrom_throw_eq_ok
    all_goals simp

/-- Every run admits exactly what it has returned, wherever an offset is asked for. (Arguments are made only
for tables that the schema has.) Building from JSON carries a run on, and what it builds is among what is
returned. -/
theorem admits_returned (run : Returned b returned) :
    (∀ items, Admits b returned (items.map Ref.placed) (createStringVector items)) ∧
    (∀ items, Admits b returned (items.map Ref.placed) (createTableVector items)) ∧
    (∀ a t, a.schema.tables[a.table]? = some t → Admits b returned a.offsets (createTable a)) ∧
    (∀ root identifier, Admits b returned [root.placed] (finish root identifier)) ∧
    ∀ s id json, ∃ more, Returned (runFrom b (buildTable s id json)).2 (more ++ returned) ∧
      ∀ r, (runFrom b (buildTable s id json)).1 = .ok r → r.placed ∈ more ++ returned := by
  have kinds {kind : ObjectKind} (items : List (Ref kind)) : ∀ p ∈ items.map Ref.placed, p.kind = kind := by
    intro p member
    obtain ⟨_, _, rfl⟩ := List.mem_map.mp member
    rfl
  refine ⟨fun items => admits_references run (kinds items), fun items => admits_references run (kinds items),
    fun a t known => admits_table run known, admits_root run, fun s id json => ?_⟩
  obtain ⟨more, after⟩ := (returned_composes s).buildTable id json b returned run
  refine ⟨more, after, fun r built => ?_⟩
  rw [← after.sound.2]
  exact placed_of_buildTable (Prod.ext built rfl)

/-- A string has been returned, so it may be an element but not the root, and nothing else may be either. -/
theorem admits_string : ∃ b, Returned b [⟨8, .string⟩] ∧
    (∀ rev b', runFrom b (createStringVector [⟨8⟩, ⟨8⟩]) ≠ (.error (.unplacedOffset rev), b')) ∧
    runFrom b (createStringVector [⟨8⟩, ⟨12⟩]) = (.error (.unplacedOffset 12), b) ∧
    runFrom b (finish ⟨8⟩ none) = (.error (.unplacedOffset 8), b) := by
  have step := Returned.step (.start (.zeros 0 .standard)) (.string "ab")
  have returned : (runFrom (ofStorage (.zeros 0 .standard)) (Request.string "ab").steps).1.toOption.toList ++
      [] = [⟨8, .string⟩] := by decide +kernel
  rw [returned] at step
  obtain ⟨strings, _, _, root, _⟩ := admits_returned step
  exact ⟨_, step, (strings [⟨8⟩, ⟨8⟩]).accepts (by decide),
    (strings [⟨8⟩, ⟨12⟩]).refuses ⟨12, .string⟩ (by decide),
    (root ⟨8⟩ none).refuses ⟨8, .table⟩ (by decide)⟩

end Builder
end FlatTable

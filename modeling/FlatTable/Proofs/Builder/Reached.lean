import FlatTable.Proofs.Builder.Failing
import FlatTable.Proofs.Builder.Tables
import FlatTable.Proofs.Convert.Composed

/-! The states that a builder can come to, whatever is asked of it and whichever steps fail. -/
namespace FlatTable
open Layout Build

namespace Builder
variable {b b' : Builder}

/-- A state that a builder comes to. Each table may be of a schema of its own, validated or not. A step that
fails changes the state too. -/
inductive Reached : Builder → Prop
  | start (storage : Storage) : Reached (ofStorage storage)
  | force {b : Builder} (reached : Reached b) (on : Bool) : Reached { b with forceDefaults := on }
  | string {b : Builder} (reached : Reached b) (text : String) : Reached (runFrom b (createString text)).2
  | vector {b : Builder} (reached : Reached b) (t : ScalarType) (items : List Value) :
      Reached (runFrom b (createVector t items)).2
  | references {b : Builder} (reached : Reached b) (element : ElementKind) (target : ObjectKind)
      (items : List Placed) : Reached (runFrom b (createReferenceVector element target items)).2
  | table {b : Builder} (reached : Reached b) {s : Schema} (filled : s.Filled) {a : TableArgs}
      (fits : a.Fits s) : Reached (runFrom b (createTable a)).2
  | json {b : Builder} (reached : Reached b) {s : Schema} (filled : s.Filled) (id : Nat) (json : Json) :
      Reached (runFrom b (buildTable s id json)).2

/-- What holds in all these states: everything that has been placed lies behind what comes next. -/
structure Coherent (b : Builder) : Prop where
  sound : b.Sound
  behind : ∀ p ∈ b.placed, b.Behind p.rev

theorem Coherent.extends (coherent : b.Coherent) (grows : b.Extends b') : b'.Coherent := by
  obtain ⟨front, grown⟩ := grows
  refine ⟨grown.sound coherent.sound, fun p placed => ?_⟩
  rw [grown.placed] at placed
  exact (coherent.behind p placed).kept grown.keeps

theorem Coherent.creates (coherent : b.Coherent) {rev : Nat} {kind : ObjectKind}
    (creates : b.Creates b' rev kind) : b'.Coherent := by
  have keeps := creates.keeps
  have sound := creates.sound coherent.sound
  obtain ⟨b₁, front, grown, behind, inFront, rfl⟩ := creates
  refine ⟨sound, List.forall_mem_cons.mpr ⟨?_, ?_⟩⟩
  · exact ⟨Nat.lt_of_le_of_lt (Nat.zero_le _) behind, inFront⟩
  · exact fun p placed => (coherent.behind p placed).kept keeps

/-- The steps lead from each such state to another one, also where they fail. -/
def Coheres {α : Type} (steps : Build α) : Prop :=
  ∀ b : Builder, b.Coherent → (runFrom b steps).2.Coherent

theorem Coheres.of_creates {kind : ObjectKind} {steps : Build (Ref kind)}
    {done : Builder → Ref kind → Builder → Prop} (does : ∀ b : Builder, b.Sound → steps.Does b (done b))
    (creates : ∀ b r b', done b r b' → b.Creates b' r.rev kind) : Coheres steps := by
  exact fun b coherent => (does b coherent.sound).leaves (fun _ => coherent.extends)
    fun r b' done => coherent.creates (creates b r b' done)

theorem createString_coheres (text : String) : Coheres (createString text) :=
  .of_creates (fun _ sound => createString_does sound text) fun _ _ _ => And.left

theorem createVector_coheres (t : ScalarType) (items : List Value) : Coheres (createVector t items) :=
  .of_creates (fun _ sound => createVector_does sound t items) fun _ _ _ => And.left

theorem createReferenceVector_coheres (element : ElementKind) (target : ObjectKind)
    (items : List Placed) : Coheres (createReferenceVector element target items) :=
  .of_creates (fun _ sound => createReferenceVector_does sound element target items) fun _ _ _ => And.left

theorem createTable_coheres {s : Schema} (filled : s.Filled) {a : TableArgs} (fits : a.Fits s) :
    Coheres (createTable a) :=
  .of_creates (fun _ sound => createTable_does filled fits sound) fun _ _ _ => And.left

theorem coheres_composes {s : Schema} (filled : s.Filled) : Composes s Coheres where
  pure _ _ coherent := coherent
  throw _ _ coherent := coherent
  bind first next b coherent :=
    Leaves.bind (first b coherent) fun a b' ran => next a ⟨b, b', ran⟩ b'
  string := createString_coheres
  vector := createVector_coheres
  references := createReferenceVector_coheres
  table _ fits := createTable_coheres filled fits

theorem Reached.coherent (reached : b.Reached) : b.Coherent := by
  induction reached with
  | start storage => exact ⟨ofStorage_sound storage, List.forall_mem_nil _⟩
  | force _ on ih => exact ⟨ih.sound.force on, ih.behind⟩
  | string _ text ih => exact createString_coheres text _ ih
  | vector _ t items ih => exact createVector_coheres t items _ ih
  | references _ element target items ih => exact createReferenceVector_coheres element target items _ ih
  | table _ filled fits ih => exact createTable_coheres filled fits _ ih
  | json _ filled id json ih => exact (coheres_composes filled).buildTable id json _ ih

end Builder
end FlatTable

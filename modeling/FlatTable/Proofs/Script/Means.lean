import FlatTable.Proofs.Convert.Buffers
import FlatTable.Proofs.Convert.Composed
import FlatTable.Proofs.Script.Meaning

/-! A builder in use holds what its script means: each offset that it has given leads to the draft of its
call, and no object shares a byte with what a failed call has left. -/
namespace FlatTable
open Build Builder Construction

/-! ### Steps that keep what is there -/

namespace Build
variable {α β : Type} {b : Builder} {s : Schema}

def Orderly (steps : Build α) : Prop := ∀ b : Builder, b.Sound → b.Follows (runFrom b steps).2

theorem Does.follows {steps : Build α} {done : α → Builder → Prop} (does : steps.Does b done)
    (grows : ∀ a b', done a b' → b.Follows b') : b.Follows (runFrom b steps).2 :=
  does.leaves (fun _ => Extends.follows) grows

theorem Orderly.bind {steps : Build α} {f : α → Build β} (first : steps.Orderly)
    (next : ∀ a, steps.Returns a → (f a).Orderly) : (steps >>= f).Orderly := fun b sound =>
  Leaves.bind (first b sound) fun a b' ran follows =>
    follows.trans (next a ⟨b, b', ran⟩ b' (follows.sound sound))

/-- Creating objects keeps what is there, and so does building from JSON. -/
theorem orderly_composes (valid : s.Valid) : Composes s Orderly where
  pure _ b _ := .refl b
  throw _ b _ := .refl b
  bind := Orderly.bind
  string text _ sound := (createString_does sound text).follows fun _ _ given => given.1.follows
  vector t items _ sound := (createVector_does sound t items).follows fun _ _ given => given.1.follows
  references element target items _ sound :=
    (createReferenceVector_does sound element target items).follows fun _ _ given => given.1.follows
  table _ fits _ sound := (createTable_does valid.filled fits sound).follows fun _ _ given => given.1.follows

end Build

namespace Script

/-- What a call does keeps what is there. -/
theorem Call.steps_orderly {s : Schema} (valid : s.Valid) (answers : List Answer) {c : Call}
    (other : ∀ on, c ≠ .force on) : (c.steps s answers).Orderly := by
  have composes := orderly_composes valid
  have placed {kind : ObjectKind} {steps : Build (Ref kind)} (orderly : steps.Orderly) :
      (steps >>= fun r => pure (some r.placed)).Orderly :=
    composes.bind orderly fun _ _ => composes.pure _
  cases c with
  | string text => exact placed (composes.string text)
  | vector t items => exact placed (composes.vector t items)
  | strings items | tables items =>
    rw [Call.steps, Call.vectorOf]
    split
    · exact composes.pure none
    · exact placed (composes.references _ _ _)
  | table id entries =>
    rw [Call.steps]
    split
    · exact composes.pure none
    · refine composes.bind (composes.lift _) fun a returns => placed (composes.table _ ?_)
      obtain ⟨_, _, ran⟩ := returns
      exact (TableArgs.addAll_fits (TableArgs.new_fits (runFrom_lift_eq_ok_iff.mp ran).1).1 _).1
  | json id value => exact placed (composes.buildTable id value)
  | force on => exact absurd rfl (other on)
  | skip => exact composes.pure none

/-! ### What a builder in use holds -/

/-- No object has a byte that was written from this answer's call on and before its end. -/
structure Answer.Clear (b : Builder) (h : History) (a : Answer) : Prop where
  after : a.after ≤ b.used.bytes.length
  spans : ∀ c ∈ h, ∃ lo hi, b.Spans c lo hi ∧ (hi ≤ a.before ∨ a.after ≤ lo)

/-- What has been built is what the calls mean, and clear of what failed calls have left. -/
structure State.Means (s : Schema) (m : Meaning) (h : History) (x : State) : Prop where
  firm : Firm s ⟨x.builder, h⟩
  forced : x.builder.forceDefaults = m.forced
  length : x.answers.length = m.drafts.length
  made : ∀ (source : Source) p, source.Own → source.offset? x.answers = some p →
    ∃ d, source.draft? m.drafts = some d ∧ d.Sound s ∧ d.Made h (.reference p)
  spans : ∀ c ∈ h, ∃ lo hi, x.builder.Spans c lo hi
  clear : ∀ a ∈ x.answers, a.Failed → a.Clear x.builder h

section
variable {s : Schema} {calls : List Call} {m : Meaning} {h h' : History} {x : State} {b' : Builder}
  {source : Source} {id : Nat}

theorem Answer.Clear.kept {a : Answer} (clear : a.Clear x.builder h)
    (continues : Continues s ⟨x.builder, h⟩ ⟨b', h'⟩) : a.Clear b' h' where
  after := Nat.le_trans clear.after continues.follows.le
  spans c member := by
    rcases continues.inFront c member with old | ⟨lo, hi, spans, inFront⟩
    · obtain ⟨lo, hi, spans, apart⟩ := clear.spans c old
      exact ⟨lo, hi, spans.kept continues.follows.keeps, apart⟩
    · exact ⟨lo, hi, spans, .inr (Nat.le_trans clear.after inFront)⟩

theorem State.start_means (s : Schema) (storage : Storage) : (start storage).Means s .start [] where
  firm := Construction.start_firm s storage
  forced := rfl
  length := rfl
  made source p own given := by
    cases source with
    | call number => simp [start, Source.offset?] at given
    | foreign q => exact own.elim
  spans := by simp
  clear := by simp [start]

/-- An offset that is given is an earlier one or the last one. -/
theorem Source.offset?_append {answers : List Answer} {last : Answer} {p : Placed} (own : source.Own) :
    source.offset? (answers ++ [last]) = some p ↔
      source.offset? answers = some p ∨ source = .call answers.length ∧ last.offset? = some p := by
  cases source with
  | foreign q => exact own.elim
  | call number =>
    simp only [Source.offset?, Source.call.injEq]
    rcases Nat.lt_trichotomy number answers.length with before | rfl | after
    · simp [List.getElem?_append_left before, Nat.ne_of_lt before]
    · simp
    · rw [List.getElem?_eq_none (by rw [List.length_append]; exact after),
        List.getElem?_eq_none (Nat.le_of_lt after)]
      simp [Nat.ne_of_gt after]

variable (means : x.Means s m h)
include means

/-- One more answer. An object that was placed is what the call means. -/
theorem State.Means.next (continues : Continues s ⟨x.builder, h⟩ ⟨b', h'⟩)
    {result : Except BuildError (Option Placed)} {last : Option Draft}
    (made : ∀ p, result = .ok (some p) →
      ∃ d, last = some d ∧ d.Sound s ∧ d.Made h' (.reference p))
    (failed : ∀ e, result = .error e → h' = h) :
    State.Means s ⟨m.forced, m.drafts ++ [last]⟩ h'
      ⟨b', x.answers ++ [⟨result, x.builder.used.size, b'.used.size⟩]⟩ where
  firm := continues.firm
  forced := continues.follows.forceDefaults.trans means.forced
  length := by simp [means.length]
  made source p own given := by
    rcases (Source.offset?_append own).mp given with before | ⟨rfl, last⟩
    · obtain ⟨d, drafted, sound, placed⟩ := means.made source p own before
      exact ⟨d, Source.draft?_append.mpr (.inl drafted), sound, placed.mono continues.history⟩
    · obtain ⟨d, drafted, rest⟩ :=
        made p (toOption_eq_some_iff.mp (Option.join_eq_some_iff.mp last))
      exact ⟨d, Source.draft?_append.mpr (.inr ⟨by rw [means.length], drafted⟩), rest⟩
  spans c member := by
    rcases continues.inFront c member with old | ⟨lo, hi, spans, _⟩
    · obtain ⟨lo, hi, spans⟩ := means.spans c old
      exact ⟨lo, hi, spans.kept continues.follows.keeps⟩
    · exact ⟨lo, hi, spans⟩
  clear a member isFailed := by
    rcases List.mem_append.mp member with old | here
    · exact (means.clear a old isFailed).kept continues
    · obtain rfl := List.mem_singleton.mp here
      obtain ⟨e, isError⟩ := isFailed
      obtain rfl := failed e isError
      refine ⟨Nat.le_of_eq b'.used.size_eq, fun c known => ?_⟩
      obtain ⟨lo, hi, spans⟩ := means.spans c known
      refine ⟨lo, hi, spans.kept continues.follows.keeps, .inl ?_⟩
      dsimp only
      rw [x.builder.used.size_eq]
      exact spans.le (means.firm.behind known).2

/-- Steps that keep nothing do no harm. -/
theorem State.Means.follows (follows : x.builder.Follows b') :
    Continues s ⟨x.builder, h⟩ ⟨b', h⟩ :=
  ⟨means.firm.follows follows, follows, List.Subset.refl _, fun _ member => .inl member⟩

/-- Defaults are forced, or no longer. -/
theorem State.Means.force (on : Bool) :
    State.Means s { m with forced := on } h
      { x with builder := { x.builder with forceDefaults := on } } := by
  have keeps := x.builder.keeps_force on
  have firm := means.firm
  refine ⟨⟨firm.builder.force on, firm.placed,
    fun c member => (firm.laid c member).kept keeps, firm.complete.kept keeps, firm.fits,
    firm.grounded, firm.typed, firm.spread.kept keeps⟩, rfl, means.length, means.made, fun c member => ?_,
    fun a member isFailed => ?_⟩
  · obtain ⟨lo, hi, spans⟩ := means.spans c member
    exact ⟨lo, hi, spans.kept keeps⟩
  · obtain ⟨after, spans⟩ := means.clear a member isFailed
    refine ⟨after, fun c known => ?_⟩
    obtain ⟨lo, hi, spans, apart⟩ := spans c known
    exact ⟨lo, hi, spans.kept keeps, apart⟩

end
end Script
end FlatTable

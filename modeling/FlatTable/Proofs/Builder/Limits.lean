import FlatTable.Proofs.Builder.Refusals

/-! What building can fail with when every value is of its field's type and every reference is to
something placed: there is no room, in a table, in a buffer or in the storage. -/
namespace FlatTable
open Layout

/-- There is no room for something that is as it should be. -/
def BuildError.IsLimit : BuildError → Prop
  | tableTooLarge _ _ | bufferTooLarge _ | allocationFailed _ => True
  | _ => False

theorem BuildError.IsFull.isLimit {e : BuildError} (h : e.IsFull) : e.IsLimit := by
  cases e <;> trivial

namespace Build
variable {α : Type} {b : Builder}

def Limited (steps : Build α) (b : Builder) : Prop :=
  ∀ e b', runFrom b steps = (.error e, b') → e.IsLimit

theorem FailsWith.limited {steps : Build α} (h : FailsWith BuildError.IsFull steps b) : steps.Limited b :=
  h.mono fun _ => BuildError.IsFull.isLimit

end Build

namespace Builder
open Build
variable {b : Builder}

/-! ### Strings and vectors -/

theorem createString_limited (text : String) : (createString text).Limited b :=
  (createString_fails text).limited

theorem createVector_limited {t : ScalarType} {items : List Value}
    (typed : ∀ v ∈ items, v.type = t) : (createVector t items).Limited b :=
  createVector_fails (fun _ => BuildError.IsFull.isLimit) fun v member other => absurd (typed v member) other

private theorem checkElements_fails {P : BuildError → Prop} (sound : b.Sound) {target : ObjectKind}
    {items : List Placed} (placed : ∀ p ∈ items, p ∈ b.placed ∧ p.kind = target) :
    FailsWith P (checkElements target items) b := by
  induction items with
  | nil => exact .of_pure _
  | cons p items ih =>
    obtain ⟨⟨isPlaced, kind⟩, rest⟩ := List.forall_mem_cons.mp placed
    have first : FailsWith P (checkPlaced p) b := 
      checkPlaced_fails (absurd ((Placed.isAmong_iff_mem sound.listed.ordered).mpr isPlaced))
    unfold checkElements
    refine first.bind_does (checkPlaced_does p) fun _ _ same => ?_
    rw [if_neg (by simpa using kind), same.1]
    exact ih rest

private theorem references_fails {items : List Placed} (behind : ∀ p ∈ items, b.Behind p.rev) :
    FailsWith BuildError.IsFull (items.forM fun p => pushReference p.rev) b := by
  induction items generalizing b with
  | nil => exact .of_pure _
  | cons p items ih =>
    obtain ⟨first, rest⟩ := List.forall_mem_cons.mp behind
    rw [List.forM_eq_forM, List.forM_cons]
    refine (pushReference_fails first).bind_does (pushReference_does p.rev) fun _ _ stored => ?_
    exact ih fun q member => (rest q member).kept stored.1.grown.keeps

theorem createReferenceVector_limited (sound : b.Sound) {element : ElementKind} {target : ObjectKind}
    {items : List Placed} (placed : ∀ p ∈ items, p ∈ b.placed ∧ p.kind = target)
    (behind : ∀ p ∈ items, b.Behind p.rev) :
    (createReferenceVector element target items).Limited b := by
  unfold createReferenceVector
  refine FailsWith.limited ((checkElements_fails sound placed).bind_does (checkElements_does target items)
    fun _ b₁ same => ?_)
  obtain rfl := same.1
  refine (align_fails _ _).bind_does (align_does (by decide)) fun _ b₁ aligned => ?_
  refine (references_fails fun p member => ?_).bind fun _ _ _ => counted_fails _ _
  exact (behind p (List.mem_reverse.mp member)).kept aligned.1.keeps

/-! ### Tables -/

/-- A schema that passes validation has no table with too many fields. -/
theorem createTable_limited {a : TableArgs} {s : Schema} (valid : s.Valid) (fits : a.Fits s)
    (sound : b.Sound) (placed : ∀ (i : Nat) p, a.settings[i]? = some (some (.reference p)) →
      p ∈ b.placed ∧ b.Behind p.rev) : (createTable a).Limited b := by
  obtain ⟨t, known, size⟩ := fits.table
  refine (createTable_refused valid.filled fits sound fun i p set _ => (placed i p set).2).mono ?_
  intro e refused
  cases refused with
  | unplaced set missing => exact absurd (placed _ _ (TableArgs.stored_eq_some_iff.mp set).1).1 missing
  | tooLarge _ _ => trivial
  | tooMany _ _ set many _ =>
    obtain ⟨inside, _⟩ := Array.getElem?_eq_some_iff.mp (TableArgs.stored_eq_some_iff.mp set).1
    have few := (valid.table known).few
    omega
  | full full => exact full.isLimit

theorem finish_limited {root : Ref .table} (identifier : Option Identifier) (sound : b.Sound)
    (placed : root.placed ∈ b.placed) (behind : b.Behind root.rev) :
    (finish root identifier).Limited b := by
  have divides : max b.minAlign offsetSize ∣ 8 := max_dvd_eight sound.minAlign (by decide)
  unfold finish pushRoot
  refine FailsWith.limited (FailsWith.bind ?_ fun _ _ _ => FailsWith.get_bind (.of_pure _))
  have among := (Placed.isAmong_iff_mem sound.listed.ordered).mpr placed
  refine FailsWith.bind_does (checkPlaced_fails (absurd among)) (checkPlaced_does _) fun _ b₁ same => ?_
  obtain rfl := same.1
  apply FailsWith.get_bind
  refine (align_fails _ _).bind_does (align_does divides) fun _ b₂ aligned => ?_
  have behind₂ := behind.kept aligned.1.keeps
  cases identifier with
  | none => exact pushReference_fails behind₂
  | some identifier =>
    refine (push_fails _).bind_does (push_does _) fun _ b₃ pushed => ?_
    exact pushReference_fails (behind₂.kept pushed.1.keeps)

end Builder
end FlatTable

import FlatTable.Proofs.Builder.Grounded
import FlatTable.Proofs.Builder.Spread

/-! What holds after any run of a builder: each object that was created is laid out, in front of those
that were created before it, and refers only to them. -/
namespace FlatTable
open Layout Build

namespace Builder
variable {b b' : Builder}

def Laid (b : Builder) (c : Creation) : Prop :=
  match c.content with
  | .string s => b.StringLaid c.rev s
  | .scalars t items => b.ScalarsLaid c.rev t items
  | .strings items => b.ReferencesLaid c.rev (items.map Ref.rev)
  | .tables items => b.ReferencesLaid c.rev (items.map Ref.rev)
  | .table a => ∃ start slots, b.TableLaid c.rev a start slots

theorem Laid.kept {c : Creation} (h : b.Laid c) (keeps : b.Keeps b') : b'.Laid c := by
  obtain ⟨rev, content⟩ := c
  cases content with
  | string s => exact StringLaid.kept h keeps
  | scalars t items => exact ScalarsLaid.kept h keeps
  | strings items | tables items => exact ReferencesLaid.kept h keeps
  | table a =>
    obtain ⟨start, slots, laid⟩ := h
    exact ⟨start, slots, laid.kept keeps⟩

end Builder

namespace Construction
variable {s : Schema} {x : Construction}

structure Sound (s : Schema) (x : Construction) : Prop where
  builder : x.builder.Sound
  placed : x.builder.placed = x.history.map Creation.placed
  inFront : ∀ c ∈ x.history, c.rev ≤ x.builder.used.bytes.length
  laid : ∀ c ∈ x.history, x.builder.Laid c
  spread : x.builder.Spread x.builder.used.bytes.length x.history
  fits : ∀ c ∈ x.history, ∀ a, c.content = .table a → a.Fits s
  grounded : x.history.Grounded

theorem start_sound (s : Schema) (storage : Storage) : (start storage).Sound s where
  builder := Builder.ofStorage_sound storage
  placed := rfl
  inFront := by simp [start]
  laid := by simp [start]
  spread := trivial
  fits := by simp [start]
  grounded := trivial

/-- An object that the builder has placed is one that was created. -/
theorem Sound.content_of_placed (h : x.Sound s) {p : Placed} (placed : p ∈ x.builder.placed) :
    ∃ c, x.history.content? p.rev = some c ∧ c.kind = p.kind := by
  rw [h.placed] at placed
  obtain ⟨⟨rev, content⟩, member, rfl⟩ := List.mem_map.mp placed
  exact ⟨content, h.grounded.content?_eq_some_iff.mpr member, rfl⟩

/-- Creating an object keeps a run sound if the object is laid out and well grounded. -/
private theorem create_sound (h : x.Sound s) {kind : ObjectKind} {steps : Build (Ref kind)}
    {content : Content} (same : content.kind = kind) (fits : ∀ a, content = .table a → a.Fits s)
    (does : steps.Does x.builder fun r b' => x.builder.Creates b' r.rev kind ∧
      b'.Laid ⟨r.rev, content⟩ ∧ content.Grounded x.history ∧
        ∃ lo hi, x.builder.used.bytes.length ≤ lo ∧ b'.Spans ⟨r.rev, content⟩ lo hi) :
    (x.create steps content).Sound s := by
  unfold create
  cases ran : runFrom x.builder steps with
  | mk result b' =>
    cases result with
    | error e =>
      obtain ⟨front, grown⟩ := does.of_error ran
      refine ⟨grown.sound h.builder, by rw [grown.placed]; exact h.placed, ?_,
        fun c member => (h.laid c member).kept grown.keeps,
        (h.spread.kept grown.keeps).mono (by rw [grown.length]; omega), h.fits, h.grounded⟩
      intro c member
      have := h.inFront c member
      rw [grown.length]
      omega
    | ok r =>
      obtain ⟨creates, laid, grounded, lo, hi, inFrontOf, spans⟩ := does.of_ok ran
      have keeps := creates.keeps
      have sound := creates.sound h.builder
      obtain ⟨b₁, front, grown, behind, inFront, rfl⟩ := creates
      refine ⟨sound, ?_,
        List.forall_mem_cons.mpr ⟨inFront, ?_⟩,
        List.forall_mem_cons.mpr ⟨laid, fun c member => (h.laid c member).kept keeps⟩,
        ⟨lo, hi, spans, spans.le inFront, (h.spread.kept keeps).mono inFrontOf⟩,
        List.forall_mem_cons.mpr ⟨fits, h.fits⟩, ?_, grounded, h.grounded⟩
      · dsimp only
        rw [List.map_cons, h.placed, Creation.placed, same]
      · intro c member
        have := h.inFront c member
        dsimp only
        rw [grown.length]
        omega
      · intro o member
        exact Nat.lt_of_le_of_lt (h.inFront o member) behind

/-- References to placed objects of one kind. -/
private theorem grounded_of_placed (h : x.Sound s) {kind : ObjectKind} {items : List (Ref kind)}
    (placed : ∀ p ∈ items.map Ref.placed, p ∈ x.builder.placed ∧ p.kind = kind) :
    ∀ r ∈ items, ∃ c, x.history.content? r.rev = some c ∧ c.kind = kind := by
  intro r member
  obtain ⟨inList, _⟩ := placed r.placed (List.mem_map.mpr ⟨r, member, rfl⟩)
  exact h.content_of_placed inList

theorem createTable_sound (valid : s.Valid) (h : x.Sound s) {a : TableArgs} (fits : a.Fits s) :
    (x.create (Builder.createTable a) (.table a)).Sound s := by
  refine create_sound h rfl (by rintro _ ⟨⟩; exact fits)
    (Does.mono (Builder.createTable_does valid.filled fits h.builder) ?_)
  intro r b' given
  obtain ⟨creates, ⟨slots, laid, _⟩, placed⟩ := given
  exact ⟨creates, ⟨_, slots, laid⟩, fun i p set => h.content_of_placed (placed i p set),
    _, _, Nat.le_refl _, .table laid⟩

theorem step_sound (valid : s.Valid) (h : x.Sound s) (step : Step) : (x.step s step).Sound s := by
  cases step with
  | string text =>
    refine create_sound h rfl (by simp) (Does.mono (Builder.createString_does h.builder text) ?_)
    intro r b' given
    obtain ⟨creates, laid, room, _⟩ := given
    exact ⟨creates, laid, trivial, Builder.Spans.exists_block rfl room⟩
  | vector t items =>
    refine create_sound h rfl (by simp) (Does.mono (Builder.createVector_does h.builder t items) ?_)
    intro r b' given
    obtain ⟨creates, laid, room, _⟩ := given
    exact ⟨creates, laid, trivial, Builder.Spans.exists_block rfl room⟩
  | strings items =>
    refine create_sound h rfl (by simp)
      (Does.mono (Builder.createReferenceVector_does h.builder .string .string _) ?_)
    intro r b' given
    obtain ⟨creates, laid, room, placed, _⟩ := given
    rw [List.map_map] at laid
    rw [List.length_map] at room
    refine ⟨creates, laid, ?_, Builder.Spans.exists_block rfl room⟩
    intro r member
    obtain ⟨c, found, kind⟩ := grounded_of_placed h placed r member
    cases c with
    | string text => exact ⟨text, found⟩
    | scalars t items | strings items | tables items | table a => cases kind
  | tables items =>
    refine create_sound h rfl (by simp)
      (Does.mono (Builder.createReferenceVector_does h.builder .table .table _) ?_)
    intro r b' given
    obtain ⟨creates, laid, room, placed, _⟩ := given
    rw [List.map_map] at laid
    rw [List.length_map] at room
    refine ⟨creates, laid, fun r member => ?_, Builder.Spans.exists_block rfl room⟩
    obtain ⟨c, found, kind⟩ := grounded_of_placed h placed r member
    cases c with
    | table a => exact ⟨a, found⟩
    | string text | scalars t items | strings items | tables items => cases kind
  | table id adds =>
    simp only [Construction.step]
    cases made : TableArgs.new s id with
    | error e => exact h
    | ok a =>
      exact createTable_sound valid h (TableArgs.addAll_fits (TableArgs.new_fits made).1 adds).1
  | force on =>
    have keeps := x.builder.keeps_force on
    exact ⟨h.builder.force on, h.placed, h.inFront,
      fun c member => (h.laid c member).kept keeps, h.spread.kept keeps, h.fits, h.grounded⟩

/-- Every run keeps a construction sound. -/
theorem run_sound (valid : s.Valid) (h : x.Sound s) (steps : List Step) :
    (x.run s steps).Sound s := by
  induction steps generalizing x with
  | nil => exact h
  | cons step steps ih => exact ih (step_sound valid h step)

end Construction
end FlatTable

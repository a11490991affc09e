import FlatTable.Proofs.Builder.Limits
import FlatTable.Proofs.Builder.Stored

/-! A run of a builder, of which some objects are kept: they are laid out and refer only to one another.
Whatever else the builder has done lies between them and is of no account. -/
namespace FlatTable
open Layout Build

namespace Builder
variable {b b' b'' : Builder}

/-- `b'` is `b` after steps of which some may have failed. -/
structure Follows (b b' : Builder) : Prop where
  keeps : b.Keeps b'
  sound : b.Sound → b'.Sound
  forceDefaults : b'.forceDefaults = b.forceDefaults
  placed : b.placed ⊆ b'.placed

theorem Follows.refl (b : Builder) : b.Follows b :=
  ⟨(Grown.refl b).keeps, id, rfl, List.Subset.refl _⟩

theorem Follows.trans (h : b.Follows b') (h' : b'.Follows b'') : b.Follows b'' where
  keeps := h.keeps.trans h'.keeps
  sound := h'.sound ∘ h.sound
  forceDefaults := h'.forceDefaults.trans h.forceDefaults
  placed := List.Subset.trans h.placed h'.placed

theorem Follows.le (h : b.Follows b') : b.used.bytes.length ≤ b'.used.bytes.length := by
  obtain ⟨front, used⟩ := h.keeps.used
  rw [used, List.length_append]
  exact Nat.le_add_left _ _

theorem Extends.follows (h : b.Extends b') : b.Follows b' := by
  obtain ⟨front, grown⟩ := h
  exact ⟨grown.keeps, grown.sound, grown.forceDefaults, by rw [grown.placed]; simp⟩

theorem Creates.follows {rev : Nat} {kind : ObjectKind} (h : b.Creates b' rev kind) :
    b.Follows b' := by
  have keeps := h.keeps
  have sound := h.sound
  obtain ⟨b₁, front, grown, _, _, rfl⟩ := h
  exact ⟨keeps, sound, grown.forceDefaults, List.subset_cons_self _ _⟩

end Builder

namespace Construction
variable {s : Schema} {x y z : Construction}

/-- The objects that are kept are laid out, with all that was set, and refer to one another as the schema
declares. -/
structure Firm (s : Schema) (x : Construction) : Prop where
  builder : x.builder.Sound
  placed : ∀ c ∈ x.history, c.placed ∈ x.builder.placed
  laid : ∀ c ∈ x.history, x.builder.Laid c
  complete : x.builder.Complete x.history
  fits : ∀ c ∈ x.history, ∀ a, c.content = .table a → a.Fits s
  grounded : x.history.Grounded
  typed : x.history.Typed s
  spread : x.builder.Spread x.builder.used.bytes.length x.history

theorem start_firm (s : Schema) (storage : Storage) : (start storage).Firm s where
  builder := Builder.ofStorage_sound storage
  placed := by simp [start]
  laid := by simp [start]
  complete := by simp [start, Builder.Complete]
  fits := by simp [start]
  grounded := trivial
  typed := by simp [start, History.Typed]
  spread := trivial

/-- Steps that keep nothing do no harm. -/
theorem Firm.follows (firm : x.Firm s) {b' : Builder} (follows : x.builder.Follows b') :
    Firm s ⟨b', x.history⟩ where
  builder := follows.sound firm.builder
  placed c member := follows.placed (firm.placed c member)
  laid c member := (firm.laid c member).kept follows.keeps
  complete := firm.complete.kept follows.keeps
  fits := firm.fits
  grounded := firm.grounded
  typed := firm.typed
  spread := (firm.spread.kept follows.keeps).mono follows.le

/-- What is kept lies behind what comes next. -/
theorem Firm.behind (firm : x.Firm s) {c : Creation} (member : c ∈ x.history) :
    x.builder.Behind c.rev := by
  obtain ⟨before, inFront⟩ := (firm.laid c member).trailingPad_lt
  exact ⟨Nat.lt_of_le_of_lt (Nat.zero_le _) before, inFront⟩

/-- `y` is `x` after more has been kept, all of it in front of what `x` has used. -/
structure Continues (s : Schema) (x y : Construction) : Prop where
  firm : y.Firm s
  follows : x.builder.Follows y.builder
  history : x.history ⊆ y.history
  inFront : ∀ c ∈ y.history, c ∈ x.history ∨
    ∃ lo hi, y.builder.Spans c lo hi ∧ x.builder.used.bytes.length ≤ lo

theorem Continues.refl (firm : x.Firm s) : x.Continues s x :=
  ⟨firm, .refl _, List.Subset.refl _, fun _ member => .inl member⟩

theorem Continues.trans (h : x.Continues s y) (h' : y.Continues s z) : x.Continues s z where
  firm := h'.firm
  follows := h.follows.trans h'.follows
  history := List.Subset.trans h.history h'.history
  inFront c member := by
    rcases h'.inFront c member with before | ⟨lo, hi, spans, inFront⟩
    · rcases h.inFront c before with old | ⟨lo, hi, spans, inFront⟩
      · exact .inl old
      · exact .inr ⟨lo, hi, spans.kept h'.follows.keeps, inFront⟩
    · exact .inr ⟨lo, hi, spans, Nat.le_trans h.follows.le inFront⟩

/-- What steps do that fail only for want of room: when they succeed objects are kept, and `done` holds. -/
def Builds (s : Schema) (x : Construction) {α : Type} (steps : Build α)
    (done : α → Construction → Prop) : Prop :=
  match runFrom x.builder steps with
  | (.ok r, b') => ∃ h, x.Continues s ⟨b', h⟩ ∧ done r ⟨b', h⟩
  | (.error e, b') => x.builder.Follows b' ∧ e.IsLimit

namespace Builds
variable {α β : Type} {steps : Build α} {f : α → Build β} {mid done : α → Construction → Prop}
  {done' : β → Construction → Prop}

theorem of_pure {a : α} (firm : x.Firm s) (h : done a x) : x.Builds s (pure a) done :=
  ⟨x.history, .refl firm, h⟩

theorem mono (first : x.Builds s steps mid)
    (next : ∀ a y, x.Continues s y → mid a y → done a y) : x.Builds s steps done := by
  unfold Builds at *
  split at first
  · obtain ⟨h, continues, done⟩ := first
    exact ⟨h, continues, next _ _ continues done⟩
  · exact first

theorem bind (first : x.Builds s steps mid)
    (next : ∀ a y, x.Continues s y → mid a y → y.Builds s (f a) done') :
    x.Builds s (steps >>= f) done' := by
  unfold Builds at *
  rw [runFrom_bind]
  cases ran : runFrom x.builder steps with
  | mk result b' =>
    rw [ran] at first
    cases result with
    | error e => exact first
    | ok a =>
      obtain ⟨h, continues, done⟩ := first
      have after := next a ⟨b', h⟩ continues done
      dsimp only at after ⊢
      cases ran' : runFrom b' (f a) with
      | mk result' b'' =>
        rw [ran'] at after
        cases result' with
        | error e => exact ⟨continues.follows.trans after.1, after.2⟩
        | ok a' =>
          obtain ⟨h', continues', done'⟩ := after
          exact ⟨h', continues.trans continues', done'⟩

theorem of_ok {a : α} {b' : Builder} (h : x.Builds s steps done)
    (ran : runFrom x.builder steps = (.ok a, b')) :
    ∃ h, x.Continues s ⟨b', h⟩ ∧ done a ⟨b', h⟩ := by
  rw [Builds, ran] at h
  exact h

theorem of_error {e : BuildError} {b' : Builder} (h : x.Builds s steps done)
    (ran : runFrom x.builder steps = (.error e, b')) : x.builder.Follows b' ∧ e.IsLimit := by
  rw [Builds, ran] at h
  exact h

end Builds

/-! ### Creating objects -/

/-- Creating an object that refers only to what is kept. -/
private theorem Firm.create (firm : x.Firm s) {kind : ObjectKind} {steps : Build (Ref kind)}
    {content : Content} (same : content.kind = kind) (grounded : content.Grounded x.history)
    (typed : content.Typed s x.history) (fits : ∀ a, content = .table a → a.Fits s)
    (limited : steps.Limited x.builder)
    (does : steps.Does x.builder fun r b' => x.builder.Creates b' r.rev kind ∧
      b'.Laid ⟨r.rev, content⟩ ∧
        (∀ a, content = .table a → ∃ start slots, b'.TableLaid r.rev a start slots ∧ Builder.Full a slots) ∧
          ∃ lo hi, x.builder.used.bytes.length ≤ lo ∧ b'.Spans ⟨r.rev, content⟩ lo hi) :
    x.Builds s steps fun r y => ⟨r.rev, content⟩ ∈ y.history := by
  unfold Builds
  cases ran : runFrom x.builder steps with
  | mk result b' =>
    cases result with
    | error e => exact ⟨(does.of_error ran).follows, limited _ _ ran⟩
    | ok r =>
      obtain ⟨creates, laid, full, lo, hi, inFront, spans⟩ := does.of_ok ran
      have follows := creates.follows
      have keeps := follows.keeps
      have whole : History.Grounded (⟨r.rev, content⟩ :: x.history) := by
        refine ⟨fun o member => ?_, grounded, firm.grounded⟩
        obtain ⟨_, _, _, behind, _⟩ := creates
        exact Nat.lt_of_le_of_lt (firm.behind member).2 behind
      have spread : b'.Spread b'.used.bytes.length (⟨r.rev, content⟩ :: x.history) :=
        ⟨lo, hi, spans, spans.le laid.trailingPad_lt.2, (firm.spread.kept keeps).mono inFront⟩
      refine ⟨⟨r.rev, content⟩ :: x.history, ⟨⟨follows.sound firm.builder, ?_, ?_, ?_, ?_, whole,
        firm.typed.cons whole typed, spread⟩, follows, List.subset_cons_self _ _, ?_⟩,
        List.mem_cons_self⟩
      · refine List.forall_mem_cons.mpr ⟨?_, fun c member => follows.placed (firm.placed c member)⟩
        obtain ⟨_, _, _, _, _, rfl⟩ := creates
        rw [Creation.placed, same]
        exact List.mem_cons_self
      · exact List.forall_mem_cons.mpr ⟨laid, fun c member => (firm.laid c member).kept keeps⟩
      · intro rev a known
        rcases List.mem_cons.mp known with here | before
        · obtain ⟨rfl, isTable⟩ := Creation.mk.inj here
          exact full a isTable.symm
        · exact firm.complete.kept keeps rev a before
      · exact List.forall_mem_cons.mpr ⟨fits, firm.fits⟩
      · intro c member
        rcases List.mem_cons.mp member with rfl | before
        · exact .inr ⟨lo, hi, spans, inFront⟩
        · exact .inl before

section
variable (firm : x.Firm s)
include firm

theorem Firm.createString (text : String) :
    x.Builds s (Builder.createString text) fun r y => ⟨r.rev, .string text⟩ ∈ y.history := by
  refine firm.create rfl trivial trivial (by simp) (Builder.createString_limited text)
    (Does.mono (Builder.createString_does firm.builder text) ?_)
  intro r b' given
  obtain ⟨creates, laid, room, _⟩ := given
  exact ⟨creates, laid, by simp, Builder.Spans.exists_block rfl room⟩

theorem Firm.createVector {t : ScalarType} {items : List Value} (typed : ∀ v ∈ items, v.type = t) :
    x.Builds s (Builder.createVector t items) fun r y => ⟨r.rev, .scalars t items⟩ ∈ y.history := by
  refine firm.create rfl trivial trivial (by simp) (Builder.createVector_limited typed)
    (Does.mono (Builder.createVector_does firm.builder t items) ?_)
  intro r b' given
  obtain ⟨creates, laid, room, _⟩ := given
  exact ⟨creates, laid, by simp, Builder.Spans.exists_block rfl room⟩

/-- Objects that are kept can be referred to. -/
private theorem Firm.placed_of_known {kind : ObjectKind} {items : List (Ref kind)}
    (known : ∀ r ∈ items, ∃ c, ⟨r.rev, c⟩ ∈ x.history ∧ c.kind = kind) :
    ∀ p ∈ items.map Ref.placed,
      (p ∈ x.builder.placed ∧ p.kind = kind) ∧ x.builder.Behind p.rev := by
  intro p member
  obtain ⟨r, inList, rfl⟩ := List.mem_map.mp member
  obtain ⟨c, object, same⟩ := known r inList
  have placed := firm.placed _ object
  rw [Creation.placed, same] at placed
  exact ⟨⟨placed, rfl⟩, firm.behind object⟩

theorem Firm.createStringVector {items : List (Ref .string)}
    (known : ∀ r ∈ items, ∃ text, ⟨r.rev, .string text⟩ ∈ x.history) :
    x.Builds s (Builder.createStringVector items) fun r y => ⟨r.rev, .strings items⟩ ∈ y.history := by
  have placed := @Firm.placed_of_known s x firm _ items fun r member =>
    (known r member).imp' Content.string fun _ object => ⟨object, rfl⟩
  refine firm.create rfl (fun r member => ?_) trivial (by simp)
    (Builder.createReferenceVector_limited firm.builder (fun p member => (placed p member).1)
      fun p member => (placed p member).2)
    (Does.mono (Builder.createReferenceVector_does firm.builder .string .string _) ?_)
  · obtain ⟨text, object⟩ := known r member
    exact ⟨text, firm.grounded.content?_eq_some_iff.mpr object⟩
  · intro r b' given
    obtain ⟨creates, laid, room, _⟩ := given
    rw [List.map_map] at laid
    rw [List.length_map] at room
    exact ⟨creates, laid, by simp, Builder.Spans.exists_block rfl room⟩

theorem Firm.createTableVector {items : List (Ref .table)}
    (known : ∀ r ∈ items, ∃ a, ⟨r.rev, .table a⟩ ∈ x.history) :
    x.Builds s (Builder.createTableVector items) fun r y => ⟨r.rev, .tables items⟩ ∈ y.history := by
  have placed := @Firm.placed_of_known s x firm _ items fun r member =>
    (known r member).imp' Content.table fun _ object => ⟨object, rfl⟩
  refine firm.create rfl (fun r member => ?_) trivial (by simp)
    (Builder.createReferenceVector_limited firm.builder (fun p member => (placed p member).1)
      fun p member => (placed p member).2)
    (Does.mono (Builder.createReferenceVector_does firm.builder .table .table _) ?_)
  · obtain ⟨a, object⟩ := known r member
    exact ⟨a, firm.grounded.content?_eq_some_iff.mpr object⟩
  · intro r b' given
    obtain ⟨creates, laid, room, _⟩ := given
    rw [List.map_map] at laid
    rw [List.length_map] at room
    exact ⟨creates, laid, by simp, Builder.Spans.exists_block rfl room⟩

theorem Firm.createTable (valid : s.Valid) {a : TableArgs} (fits : a.Fits s)
    (known : ∀ (i : Nat) p, a.settings[i]? = some (some (.reference p)) →
      ∃ c, ⟨p.rev, c⟩ ∈ x.history ∧ c.kind = p.kind)
    (typed : ∀ (i : Nat) f p, s.field? a.table i = some f →
      a.settings[i]? = some (some (.reference p)) → ∀ id ∈ f.type.tables?,
        ∀ r ∈ x.history.tablesOf (some (.reference p)), x.history.tableAt? r = some id) :
    x.Builds s (Builder.createTable a) fun r y =>
      ⟨r.rev, .table (a.stored x.builder.forceDefaults)⟩ ∈ y.history := by
  refine firm.create rfl (fun i p set => ?_) (fun i _ f field id tables r found => ?_)
    (by rintro _ ⟨⟩; exact fits.stored _)
    (Builder.createTable_limited valid fits firm.builder fun i p set => ?_)
    (Does.mono (Builder.createTable_stored valid.filled fits firm.builder) ?_)
  · obtain ⟨c, object, same⟩ := known i p (TableArgs.stored_eq_some_iff.mp set).1
    exact ⟨c, firm.grounded.content?_eq_some_iff.mpr object, same⟩
  · obtain ⟨p, _, isReference, _⟩ := firm.grounded.of_mem_tablesOf found
    rw [isReference] at found
    rw [TableArgs.stored_table] at field
    have set := (TableArgs.stored_eq_some_iff.mp (Option.join_eq_some_iff.mp isReference)).1
    exact typed i f p field set id tables r found
  · obtain ⟨c, object, same⟩ := known i p set
    have placed := firm.placed _ object
    rw [Creation.placed, same] at placed
    exact ⟨placed, firm.behind object⟩
  · intro r b' given
    obtain ⟨creates, ⟨slots, laid, full⟩, _⟩ := given
    exact ⟨creates, ⟨_, slots, laid⟩, by rintro _ ⟨⟩; exact ⟨_, slots, laid, full⟩,
      _, _, Nat.le_refl _, .table laid⟩

/-- Finishing leaves what is kept readable, behind the root's reference. -/
theorem Firm.finish {root : Ref .table} {identifier : Option Identifier} {f : FinishedBuffer}
    {b' : Builder} (finished : runFrom x.builder (Builder.finish root identifier) = (.ok f, b')) :
    f = b'.finished ∧ b'.Built s x.history ∧ b'.Complete x.history ∧
      b'.Rooted root.rev ((identifier.map Identifier.bytes).getD []) := by
  obtain ⟨data, _, ⟨front, grown⟩, rooted, _⟩ :=
    (Builder.finish_does root identifier firm.builder).of_ok finished
  exact ⟨data, ⟨grown.sound firm.builder, rooted.whole, rooted.aligned,
    fun c known => (firm.laid c known).kept grown.keeps, firm.fits, firm.grounded⟩,
    firm.complete.kept grown.keeps, rooted⟩

/-- The root's reference is in front of what is kept. -/
theorem Firm.finish_spread {root : Ref .table} {identifier : Option Identifier} {f : FinishedBuffer}
    {b' : Builder} (finished : runFrom x.builder (Builder.finish root identifier) = (.ok f, b')) :
    ∃ top, top + offsetSize ≤ b'.used.bytes.length ∧ b'.Spread top x.history := by
  obtain ⟨_, _, ⟨front, grown⟩, _, room⟩ :=
    (Builder.finish_does root identifier firm.builder).of_ok finished
  exact ⟨x.builder.used.bytes.length, by omega, firm.spread.kept grown.keeps⟩

end

end Construction
end FlatTable

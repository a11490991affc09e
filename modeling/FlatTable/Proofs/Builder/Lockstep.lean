import FlatTable.Proofs.Builder.Limits

/-! Two builders side by side, whose storages differ in what they hold and in how they grow. They take the
same steps and use the same bytes. Only a table that is given up after room was left for the distance to its
vtable may leave bytes behind that nobody has written. -/
namespace FlatTable
open Layout

def BuildError.IsRefusal : BuildError → Prop
  | allocationFailed _ => True
  | _ => False

def Build.Refused {α : Type} : Except BuildError α → Prop
  | .error e => e.IsRefusal
  | .ok _ => False

/-- Can a table be given up with this error when room has been left for the distance to its vtable? -/
def BuildError.Abandons : BuildError → Prop
  | tableTooLarge _ _ | tooManyFields _ _ | bufferTooLarge _ | contract _ => True
  | _ => False

namespace Builder
variable {gaps : List Nat} {b b' : Builder}

/-- Is the byte at this distance from the end one of the four that were left at a gap? -/
def InGap (gap d : Nat) : Prop := gap ≤ d + offsetSize ∧ d < gap

instance (gap d : Nat) : Decidable (InGap gap d) := inferInstanceAs (Decidable (_ ∧ _))

/-- The builders have used the same bytes, except for those in the gaps, and nothing else tells them apart
but their storages. -/
structure Agree (gaps : List Nat) (b b' : Builder) : Prop where
  length : b'.used.bytes.length = b.used.bytes.length
  bytes : ∀ d, (∀ gap ∈ gaps, ¬ InGap gap d) →
    b'.used.bytes.reverse[d]? = b.used.bytes.reverse[d]?
  minAlign : b'.minAlign = b.minAlign
  forceDefaults : b'.forceDefaults = b.forceDefaults
  trailingPad : b'.trailingPad = b.trailingPad
  placed : b'.placed = b.placed

theorem Agree.refl (b : Builder) : Agree [] b b := ⟨rfl, fun _ _ => rfl, rfl, rfl, rfl, rfl⟩

theorem Agree.size (h : Agree gaps b b') : b'.used.size = b.used.size := by
  rw [b'.used.size_eq, h.length, b.used.size_eq]

theorem Agree.of_subset {more : List Nat} (h : Agree gaps b b') (subset : gaps ⊆ more) : Agree more b b' :=
  { h with bytes := fun d outside => h.bytes d fun gap member => outside gap (subset member) }

theorem Agree.ofStorage (s s' : Storage) : Agree [] (ofStorage s) (ofStorage s') :=
  ⟨rfl, fun _ _ => rfl, rfl, rfl, rfl, rfl⟩

/-- Bytes in front of both, which agree outside the gaps. -/
theorem Agree.push (h : Agree gaps b b') {front front' : List UInt8}
    (length : front'.length = front.length)
    (same : ∀ d, (∀ gap ∈ gaps, ¬ InGap gap d) → b.used.bytes.length ≤ d →
      front'.reverse[d - b.used.bytes.length]? = front.reverse[d - b.used.bytes.length]?)
    (free free' : Block) (requests requests' : Nat) :
    Agree gaps { b with free, requests, used := b.used.push front }
      { b' with free := free', requests := requests', used := b'.used.push front' } where
  length := by simp only [Block.push, List.length_append, length, h.length]
  bytes d outside := by
    simp only [Block.push, List.reverse_append, List.getElem?_append, List.length_reverse, h.length]
    split
    · exact h.bytes d outside
    · exact same d outside (by omega)
  minAlign := h.minAlign
  forceDefaults := h.forceDefaults
  trailingPad := h.trailingPad
  placed := h.placed

/-- What the two storages held before stays in a new gap. -/
theorem Agree.leave (h : Agree gaps b b') {old old' : List UInt8} (length : old.length = offsetSize)
    (length' : old'.length = offsetSize) (free free' : Block) (requests requests' : Nat) :
    Agree ((b.used.bytes.length + offsetSize) :: gaps)
      { b with free, requests, used := b.used.push old }
      { b' with free := free', requests := requests', used := b'.used.push old' } := by
  have wider : Agree ((b.used.bytes.length + offsetSize) :: gaps) b b' :=
    h.of_subset (List.subset_cons_self _ _)
  refine wider.push (by rw [length, length']) (fun d outside behind => ?_) free free' requests requests'
  have here := (List.forall_mem_cons.mp outside).1
  rw [List.getElem?_eq_none, List.getElem?_eq_none]
  all_goals
    simp only [InGap, List.length_reverse, length, length'] at here ⊢
    omega

private theorem overwrite_bytes_gap (used : Block) {gap : Nat} (room : offsetSize ≤ gap)
    (inside : gap ≤ used.bytes.length) {bytes : List UInt8} (length : bytes.length = offsetSize) :
    (used.overwrite (used.size - gap) bytes).bytes =
      used.bytes.take (used.bytes.length - gap) ++ bytes ++
        used.bytes.drop (used.bytes.length - gap + offsetSize) := by
  rw [used.size_eq, ← length, Block.overwrite, dif_pos (by rw [used.size_eq, length]; omega)]

private theorem length_overwrite_gap (used : Block) {gap : Nat} (room : offsetSize ≤ gap)
    (inside : gap ≤ used.bytes.length) {bytes : List UInt8} (length : bytes.length = offsetSize) :
    (used.overwrite (used.size - gap) bytes).bytes.length = used.bytes.length := by
  rw [overwrite_bytes_gap used room inside length]
  simp only [List.length_append, List.length_take, List.length_drop, length]
  omega

/-- Four bytes that are written over a gap are found there. -/
private theorem getElem?_overwrite_gap (used : Block) {gap : Nat} (room : offsetSize ≤ gap)
    (inside : gap ≤ used.bytes.length) {bytes : List UInt8} (length : bytes.length = offsetSize) (d : Nat) :
    (used.overwrite (used.size - gap) bytes).bytes.reverse[d]? =
      if InGap gap d then bytes[gap - 1 - d]? else used.bytes.reverse[d]? := by
  have same := length_overwrite_gap used room inside length
  have front : (used.bytes.take (used.bytes.length - gap)).length = used.bytes.length - gap := by
    rw [List.length_take, Nat.min_eq_left (Nat.sub_le _ _)]
  by_cases behind : d < used.bytes.length
  · rw [List.getElem?_reverse (by omega), List.getElem?_reverse behind, same,
      overwrite_bytes_gap used room inside length]
    by_cases here : InGap gap d
    · obtain ⟨notBefore, notAfter⟩ := here
      rw [if_pos ⟨notBefore, notAfter⟩, List.getElem?_append_left (by rw [List.length_append]; omega),
        List.getElem?_append_right (by omega), front]
      congr 1
      omega
    · rw [if_neg here]
      unfold InGap at here
      by_cases farther : gap ≤ d
      · rw [List.append_assoc, List.getElem?_append_left (by omega), List.getElem?_take_of_lt (by omega)]
      · rw [List.getElem?_append_right (by rw [List.length_append]; omega), List.length_append, front,
          length, List.getElem?_drop]
        congr 1
        omega
  · rw [if_neg (fun here => behind (Nat.lt_of_lt_of_le here.2 inside)), List.getElem?_eq_none,
      List.getElem?_eq_none]
    all_goals
      rw [List.length_reverse]
      omega

/-- Writing the same bytes over a gap closes it. -/
theorem Agree.fill {gap : Nat} (h : Agree (gap :: gaps) b b') (room : offsetSize ≤ gap)
    (inside : gap ≤ b.used.bytes.length) {bytes : List UInt8} (length : bytes.length = offsetSize) :
    Agree gaps { b with used := b.used.overwrite (b.used.size - gap) bytes }
      { b' with used := b'.used.overwrite (b'.used.size - gap) bytes } := by
  have inside' : gap ≤ b'.used.bytes.length := by rw [h.length]; exact inside
  refine ⟨?_, fun d outside => ?_, h.minAlign, h.forceDefaults, h.trailingPad, h.placed⟩
  · simp only [length_overwrite_gap _ room inside length, length_overwrite_gap _ room inside' length,
      h.length]
  · simp only [getElem?_overwrite_gap _ room inside length, getElem?_overwrite_gap _ room inside' length]
    split
    · rfl
    · next notHere => exact h.bytes d (List.forall_mem_cons.mpr ⟨notHere, outside⟩)

end Builder

namespace Build
open Builder
variable {α β : Type} {stops : BuildError → Prop} {start : Nat} {gaps : List Nat} {b b' : Builder}

/-- How two runs of the same steps can end, from builders that had used `start` bytes: a storage refuses to
grow, or the answers are equal and the builders agree. With some errors a new gap is left. -/
inductive Together (stops : BuildError → Prop) (start : Nat) (gaps : List Nat) :
    Except BuildError α × Builder → Except BuildError α × Builder → Prop where
  | refused {x x' : Except BuildError α × Builder} (refused : Refused x.1 ∨ Refused x'.1) :
    Together stops start gaps x x'
  | same (result : Except BuildError α) {b b' : Builder} (grows : start ≤ b.used.bytes.length)
    (agree : Agree gaps b b') : Together stops start gaps (result, b) (result, b')
  | stopped {e : BuildError} {gap : Nat} {b b' : Builder} (stop : stops e)
    (behind : start + offsetSize ≤ gap) (inside : gap ≤ b.used.bytes.length)
    (agree : Agree (gap :: gaps) b b') : Together stops start gaps (.error e, b) (.error e, b')

/-- Steps that lead two builders which agree to the same answer. -/
def Steady (stops : BuildError → Prop) (steps : Build α) : Prop :=
  ∀ gaps b b', Agree gaps b b' →
    Together stops b.used.bytes.length gaps (runFrom b steps) (runFrom b' steps)

theorem Refused.bind {steps : Build α} {f : α → Build β} {result : Except BuildError α}
    (refused : Refused result) (ran : runFrom b steps = (result, b')) :
    Refused (runFrom b (steps >>= f)).1 := by
  cases result with
  | error e =>
    rw [runFrom_bind, ran]
    exact refused
  | ok a => cases refused

theorem Refused.map_iff {f : α → β} {result : Except BuildError α} :
    Refused (result.map f) ↔ Refused result := by
  cases result <;> rfl

/-- Steps before other steps. -/
theorem Together.bind {steps : Build α} {f : α → Build β}
    (first : Together stops start gaps (runFrom b steps) (runFrom b' steps))
    (next : ∀ a c c', steps.Returns a → start ≤ c.used.bytes.length → Agree gaps c c' →
      Together stops start gaps (runFrom c (f a)) (runFrom c' (f a))) :
    Together stops start gaps (runFrom b (steps >>= f)) (runFrom b' (steps >>= f)) := by
  cases ran : runFrom b steps with
  | mk result b₁ =>
    cases ran' : runFrom b' steps with
    | mk result' b₁' =>
      rw [ran, ran'] at first
      cases first with
      | refused either =>
        exact .refused (either.imp (fun refused => refused.bind ran) fun refused => refused.bind ran')
      | same _ grows agree =>
        rw [runFrom_bind, runFrom_bind, ran, ran']
        cases result with
        | error e => exact .same _ grows agree
        | ok a => exact next a b₁ b₁' ⟨b, b₁, ran⟩ grows agree
      | stopped stop behind inside agree =>
        rw [runFrom_bind, runFrom_bind, ran, ran']
        exact .stopped stop behind inside agree

/-- What held when the runs had used more holds when they had used less. -/
theorem Together.mono {less : Nat} {x x' : Except BuildError α × Builder} (le : less ≤ start)
    (h : Together stops start gaps x x') : Together stops less gaps x x' := by
  cases h with
  | refused either => exact .refused either
  | same result grows agree => exact .same result (Nat.le_trans le grows) agree
  | stopped stop behind inside agree =>
    exact .stopped stop (Nat.le_trans (Nat.add_le_add_right le _) behind) inside agree

namespace Steady
variable {steps : Build α} {f : α → Build β}

theorem of_pure (a : α) : Steady stops (pure a) :=
  fun _ _ _ agree => .same (.ok a) (Nat.le_refl _) agree

theorem of_throw (e : BuildError) : Steady stops (throw e : Build α) :=
  fun _ _ _ agree => .same (.error e) (Nat.le_refl _) agree

theorem bind_returns (first : Steady stops steps) (next : ∀ a, steps.Returns a → Steady stops (f a)) :
    Steady stops (steps >>= f) :=
  fun gaps b b' agree => (first gaps b b' agree).bind fun a c c' returns grows agree' =>
    (next a returns gaps c c' agree').mono grows

theorem bind (first : Steady stops steps) (next : ∀ a, Steady stops (f a)) :
    Steady stops (steps >>= f) :=
  first.bind_returns fun a _ => next a

/-- Reading what the builders agree about. -/
theorem get_bind {f : Builder → Build β} (same : ∀ gaps b b', Agree gaps b b' → f b' = f b)
    (next : ∀ b, Steady stops (f b)) : Steady stops (get >>= f) := by
  intro gaps b b' agree
  change Together _ _ _ (runFrom b (f b)) (runFrom b' (f b'))
  rw [same gaps b b' agree]
  exact next b gaps b b' agree

theorem of_modify {change : Builder → Builder}
    (agrees : ∀ gaps b b', Agree gaps b b' → Agree gaps (change b) (change b'))
    (grows : ∀ b, b.used.bytes.length ≤ (change b).used.bytes.length) :
    Steady stops (modify change : Build PUnit) :=
  fun gaps b b' agree => .same (.ok PUnit.unit) (grows b) (agrees gaps b b' agree)

theorem forM {l : List α} {f : α → Build PUnit} (each : ∀ x, Steady stops (f x)) :
    Steady stops (l.forM f) := by
  induction l with
  | nil => exact of_pure _
  | cons x l ih =>
    rw [List.forM_eq_forM, List.forM_cons]
    exact (each x).bind fun _ => ih

end Steady
end Build

namespace Builder
open Build
variable {stops : BuildError → Prop} {b : Builder}

/-- Claiming bytes depends on the storage only in that it may be refused. -/
private theorem claim_cases (want : Nat) (b : Builder) :
    Refused (runFrom b (claim want)).1 ∨
      maxBufferSize < b.used.size + want ∧
        runFrom b (claim want) = (.error (.bufferTooLarge (b.used.size + want)), b) ∨
      b.used.size + want ≤ maxBufferSize ∧ ∃ old free requests, old.length = want ∧
        runFrom b (claim want) = (.ok old, { b with free, requests }) := by
  have does := @claim_does b want
  by_cases large : maxBufferSize < b.used.size + want
  · refine .inr (.inl ⟨large, ?_⟩)
    rw [claim]
    change runFrom b (if maxBufferSize < b.used.size + want then _ else _) = _
    rw [if_pos large]
    rfl
  · cases ran : runFrom b (claim want) with
    | mk result b' =>
      cases result with
      | ok old =>
        obtain ⟨length, _, free, requests, rfl⟩ := does.of_ok ran
        exact .inr (.inr ⟨Nat.le_of_not_lt large, old, free, requests, length, rfl⟩)
      | error e =>
        refine .inl ?_
        rw [claim] at ran
        change runFrom b (if maxBufferSize < b.used.size + want then _ else _) = _ at ran
        rw [if_neg large] at ran
        cases made : makeRoom want b with
        | mk room b₁ =>
          rw [made] at ran
          cases room with
          | error n =>
            cases ran
            trivial
          | ok u => cases ran

theorem push_steady (bytes : List UInt8) : (push bytes).Steady stops := by
  intro gaps b b' agree
  have size := agree.size
  unfold push
  rcases claim_cases bytes.length b with refused | ⟨large, ran⟩ | ⟨small, old, free, requests, _, ran⟩
  · exact .refused (.inl (refused.bind rfl))
  · rcases claim_cases bytes.length b' with refused | ⟨_, ran'⟩ | ⟨small', _⟩
    · exact .refused (.inr (refused.bind rfl))
    · rw [runFrom_bind, runFrom_bind, ran, ran', size]
      exact .same _ (Nat.le_refl _) agree
    · omega
  · rcases claim_cases bytes.length b' with refused | ⟨large', _⟩ | ⟨_, old', free', requests', _, ran'⟩
    · exact .refused (.inr (refused.bind rfl))
    · omega
    · rw [runFrom_bind, runFrom_bind, ran, ran']
      refine .same (.ok PUnit.unit) ?_ (agree.push rfl (fun _ _ _ => rfl) free free' requests requests')
      change _ ≤ (bytes ++ b.used.bytes).length
      rw [List.length_append]
      exact Nat.le_add_left _ _

theorem align_steady (length alignment : Nat) : (align length alignment).Steady stops := by
  unfold align
  refine Steady.bind (.of_modify (fun _ _ _ agree => ?_) fun _ => Nat.le_refl _) fun _ => ?_
  · exact { agree with minAlign := by simp only [agree.minAlign] }
  refine Steady.get_bind (fun _ _ _ agree => by simp only [agree.size]) fun b => ?_
  dsimp only
  split
  · refine (push_steady _).bind fun _ => ?_
    split
    · exact .of_modify (fun _ _ _ agree => { agree with trailingPad := rfl }) fun _ => Nat.le_refl _
    · exact .of_pure _
  · exact .of_pure _

theorem pushWord_steady (n : Nat) : (pushWord n).Steady stops :=
  (align_steady _ _).bind fun _ => push_steady _

theorem place_steady (kind : ObjectKind) : (place kind).Steady stops := by
  unfold place
  refine Steady.get_bind (fun _ _ _ agree => by simp only [agree.size]) fun b => ?_
  refine Steady.bind (.of_modify (fun _ _ _ agree => ?_) fun _ => Nat.le_refl _) fun _ => .of_pure _
  exact { agree with placed := by simp only [agree.placed] }

theorem checkPlaced_steady (p : Placed) : (checkPlaced p).Steady stops := by
  unfold checkPlaced
  refine Steady.get_bind (fun _ _ _ agree => by simp only [agree.placed]) fun b => ?_
  split
  · exact .of_throw _
  · exact .of_pure _

theorem pushReference_steady (rev : Nat) : (pushReference rev).Steady stops := by
  unfold pushReference
  refine (align_steady _ _).bind fun _ => ?_
  refine Steady.get_bind (fun _ _ _ agree => by simp only [agree.size]) fun b => ?_
  dsimp only
  split
  · exact .of_throw _
  · exact push_steady _

theorem pushValue_steady (v : Value) : (pushValue v).Steady stops :=
  (align_steady _ _).bind fun _ => push_steady _

theorem pushStruct_steady (d : StructDef) (values : List Value) : (pushStruct d values).Steady stops :=
  (align_steady _ _).bind fun _ => push_steady _

theorem createString_steady (text : String) : (createString text).Steady stops :=
  (align_steady _ _).bind fun _ => (push_steady _).bind fun _ => (pushWord_steady _).bind fun _ =>
    place_steady _

theorem createVector_steady (t : ScalarType) (items : List Value) :
    (createVector t items).Steady stops := by
  unfold createVector
  split
  · exact .of_throw _
  · exact (align_steady _ _).bind fun _ => (push_steady _).bind fun _ => (pushWord_steady _).bind fun _ =>
      place_steady _

private theorem checkElements_steady (target : ObjectKind) (items : List Placed) :
    (checkElements target items).Steady stops := by
  induction items with
  | nil => exact .of_pure _
  | cons p items ih =>
    unfold checkElements
    refine (checkPlaced_steady p).bind fun _ => ?_
    split
    · exact (Steady.of_throw _).bind fun _ => ih
    · exact ih

theorem createReferenceVector_steady (element : ElementKind) (target : ObjectKind) (items : List Placed) :
    (createReferenceVector element target items).Steady stops := by
  unfold createReferenceVector
  have references : (items.reverse.forM fun p => pushReference p.rev).Steady stops :=
    Steady.forM fun p => pushReference_steady p.rev
  refine (checkElements_steady target items).bind fun _ => (align_steady _ _).bind fun _ => ?_
  exact references.bind fun _ => (pushWord_steady _).bind fun _ => place_steady _

private theorem checkSetting_steady (x : Option Setting) : (checkSetting x).Steady stops := by
  unfold checkSetting
  split
  · exact checkPlaced_steady _
  · exact .of_pure _

private theorem pushSetting_steady (a : TableArgs) (t : TableDef) (i : Nat) (x : Setting) :
    (pushSetting a t i x).Steady stops := by
  unfold pushSetting
  cases x with
  | scalar v =>
    refine Steady.get_bind (fun _ _ _ agree => by simp only [agree.forceDefaults]) fun b => ?_
    split
    · exact .of_pure _
    · exact (pushValue_steady v).bind fun _ => .of_pure _
  | reference p => exact (pushReference_steady _).bind fun _ => .of_pure _
  | struct values =>
    dsimp only
    split
    · exact .of_throw _
    · exact (pushStruct_steady _ _).bind fun _ => .of_pure _

private theorem pushSettings_steady (a : TableArgs) (t : TableDef) (settings : List (Option Setting × Nat))
    (written : List (Nat × Nat)) : (pushSettings a t settings written).Steady stops := by
  induction settings generalizing written with
  | nil => exact .of_pure _
  | cons setting rest ih =>
    obtain ⟨_ | x, i⟩ := setting
    · exact ih written
    · unfold pushSettings
      refine (pushSetting_steady a t i x).bind fun wrote => ?_
      split
      · exact Steady.get_bind (fun _ _ _ agree => by simp only [agree.size]) fun b => ih _
      · exact ih written

/-! ### Tables -/

section
variable {α β : Type} {start gap : Nat} {gaps : List Nat} {b' : Builder}

/-- Steps that are taken while a gap is open. When they fail it is left. -/
private theorem bind_open {steps : Build α} {f : α → Build β} (steady : steps.Steady fun _ => False)
    (limited : steps.Limited b) (agree : Agree (gap :: gaps) b b') (behind : start + offsetSize ≤ gap)
    (inside : gap ≤ b.used.bytes.length)
    (next : ∀ a c c', b.used.bytes.length ≤ c.used.bytes.length → Agree (gap :: gaps) c c' →
      Together BuildError.Abandons start gaps (runFrom c (f a)) (runFrom c' (f a))) :
    Together BuildError.Abandons start gaps (runFrom b (steps >>= f)) (runFrom b' (steps >>= f)) := by
  have together := steady _ _ _ agree
  cases ran : runFrom b steps with
  | mk result c =>
    cases ran' : runFrom b' steps with
    | mk result' c' =>
      rw [ran, ran'] at together
      cases together with
      | refused either =>
        exact .refused (either.imp (fun refused => refused.bind ran) fun refused => refused.bind ran')
      | stopped stop => exact stop.elim
      | same _ grows agree' =>
        rw [runFrom_bind, runFrom_bind, ran, ran']
        cases result with
        | ok a => exact next a c c' grows agree'
        | error e =>
          have limit := limited e c ran
          cases e with
          | allocationFailed n => exact .refused (.inl trivial)
          | tableTooLarge _ _ | bufferTooLarge _ =>
            exact .stopped trivial behind (Nat.le_trans inside grows) agree'
          | _ => exact limit.elim

/-- Leaving room opens a gap. -/
private theorem reserve_bind {f : Unit → Build β} (agree : Agree gaps b b')
    (next : ∀ c c', c.used.bytes.length = b.used.bytes.length + offsetSize →
      Agree ((b.used.bytes.length + offsetSize) :: gaps) c c' →
      Together stops b.used.bytes.length gaps (runFrom c (f ())) (runFrom c' (f ()))) :
    Together stops b.used.bytes.length gaps (runFrom b (reserve offsetSize >>= f))
      (runFrom b' (reserve offsetSize >>= f)) := by
  have size := agree.size
  unfold reserve
  rcases claim_cases offsetSize b with refused | ⟨large, ran⟩ | ⟨small, old, free, requests, length, ran⟩
  · exact .refused (.inl ((refused.bind rfl).bind rfl))
  · rcases claim_cases offsetSize b' with refused | ⟨_, ran'⟩ | ⟨small', _⟩
    · exact .refused (.inr ((refused.bind rfl).bind rfl))
    · rw [runFrom_bind, runFrom_bind, runFrom_bind, runFrom_bind, ran, ran', size]
      exact .same _ (Nat.le_refl _) agree
    · omega
  · rcases claim_cases offsetSize b' with refused | ⟨large', _⟩ | ⟨_, old', free', requests', length', ran'⟩
    · exact .refused (.inr ((refused.bind rfl).bind rfl))
    · omega
    · rw [runFrom_bind, runFrom_bind, runFrom_bind, runFrom_bind, ran, ran']
      refine next _ _ ?_ (agree.leave length length' free free' requests requests')
      change (old ++ b.used.bytes).length = _
      rw [List.length_append, length, Nat.add_comm]

private theorem pushVtable_together (entries : List Nat) (agree : Agree (gap :: gaps) b b')
    (behind : start + offsetSize ≤ gap) (inside : gap ≤ b.used.bytes.length) :
    Together BuildError.Abandons start gaps (runFrom b (pushVtable gap entries))
      (runFrom b' (pushVtable gap entries)) := by
  unfold pushVtable
  split
  · exact .stopped trivial behind inside agree
  · refine bind_open (align_steady _ _) (align_fails _ _).limited agree behind inside fun _ c c' grows agree => ?_
    have inside := Nat.le_trans inside grows
    refine bind_open (push_steady _) (push_fails _).limited agree behind inside fun _ c c' grows agree => ?_
    have inside := Nat.le_trans inside grows
    have room : offsetSize ≤ gap := Nat.le_trans (Nat.le_add_left _ _) behind
    have filled := agree.fill room inside (Bytes.length_encode offsetSize (c.used.size - gap))
    change Together _ _ _ (.ok PUnit.unit, _) (.ok PUnit.unit, _)
    rw [agree.size] at filled ⊢
    refine .same _ ?_ filled
    rw [length_overwrite_gap _ room inside (Bytes.length_encode _ _)]
    omega

/-- Giving up while a gap is open. -/
private theorem refuse_together {p : Prop} [Decidable p] {e : BuildError} {f : α → Build β} {x : Build β}
    (abandons : e.Abandons) (agree : Agree (gap :: gaps) b b') (behind : start + offsetSize ≤ gap)
    (inside : gap ≤ b.used.bytes.length)
    (next : Together BuildError.Abandons start gaps (runFrom b x) (runFrom b' x)) :
    Together BuildError.Abandons start gaps (runFrom b (if p then throw e >>= f else x))
      (runFrom b' (if p then throw e >>= f else x)) := by
  split
  · exact .stopped abandons behind inside agree
  · exact next

theorem createTable_steady (a : TableArgs) : (createTable a).Steady BuildError.Abandons := by
  unfold createTable
  cases found : a.schema.tables[a.table]? with
  | none => exact .of_throw _
  | some t =>
    refine (Steady.forM checkSetting_steady).bind fun _ => ?_
    refine Steady.get_bind (fun _ _ _ agree => by simp only [agree.size]) fun b₀ => ?_
    refine (pushSettings_steady a t _ _).bind fun written => (align_steady _ _).bind fun _ => ?_
    intro gaps b b' agree
    refine reserve_bind agree fun c c' grown agree => ?_
    have behind := Nat.le_refl (b.used.bytes.length + offsetSize)
    have inside := Nat.le_of_eq grown.symm
    have object : c.used.size = b.used.bytes.length + offsetSize := by rw [c.used.size_eq, grown]
    -- From here on the builders are read only for where the table is.
    change Together _ _ _ (runFrom c (if _ then _ else _)) (runFrom c' (if _ then _ else _))
    rw [agree.size, object]
    refine refuse_together trivial agree behind inside ?_
    refine refuse_together trivial agree behind inside ?_
    refine (pushVtable_together _ agree behind inside).bind fun _ d d' _ grows agree => ?_
    exact .same (.ok (⟨_⟩ : Ref .table)) grows { agree with placed := by simp only [agree.placed] }

end

/-! ### Finishing -/

theorem pushRoot_steady (root : Ref .table) (identifier : Option Identifier) :
    (pushRoot root identifier).Steady stops := by
  unfold pushRoot
  refine (checkPlaced_steady _).bind fun _ => ?_
  refine Steady.get_bind (fun _ _ _ agree => by simp only [agree.minAlign]) fun b => ?_
  refine (align_steady _ _).bind fun _ => ?_
  split
  · exact (push_steady _).bind fun _ => pushReference_steady _
  · exact pushReference_steady _

end Builder
end FlatTable

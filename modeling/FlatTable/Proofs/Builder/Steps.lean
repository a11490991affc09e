import FlatTable.Builder.Finish
import FlatTable.Proofs.Builder.Placed
import FlatTable.Proofs.Padding

/-! What the small steps of building do. A step that succeeds puts its bytes in front, and a step
that fails leaves what was there before behind whatever it has written. -/
namespace FlatTable
open Layout

namespace Builder

structure Listed (b : Builder) : Prop where
  ordered : Placed.Ordered b.placed
  inFront : ∀ p ∈ b.placed, p.rev ≤ b.used.bytes.length

/-- The used bytes are no more than a buffer holds, the padding at their end is among them, and the
greatest alignment asked for is one of a buffer. -/
structure Sound (b : Builder) : Prop where
  small : b.used.bytes.length ≤ maxBufferSize
  trailingPad : b.trailingPad ≤ b.used.bytes.length
  minAlign : b.minAlign ∣ 8
  listed : b.Listed

/-- `b'` is `b` with `front` put in front of the used bytes. -/
structure Grown (b b' : Builder) (front : List UInt8) : Prop where
  used : b'.used.bytes = front ++ b.used.bytes
  trailingPad : b.used.bytes ≠ [] → b'.trailingPad = b.trailingPad
  minAlign : b.minAlign ≤ b'.minAlign
  placed : b'.placed = b.placed
  forceDefaults : b'.forceDefaults = b.forceDefaults
  sound : b.Sound → b'.Sound

def Extends (b b' : Builder) : Prop := ∃ front, b.Grown b' front

variable {b b' b'' : Builder} {front front' : List UInt8}

theorem Grown.refl (b : Builder) : b.Grown b [] := ⟨rfl, fun _ => rfl, Nat.le_refl _, rfl, rfl, id⟩

theorem Grown.trans (h : b.Grown b' front) (h' : b'.Grown b'' front') :
    b.Grown b'' (front' ++ front) where
  used := by rw [h'.used, h.used, List.append_assoc]
  trailingPad used := by
    have used' : b'.used.bytes ≠ [] := by
      rw [h.used]
      exact List.append_ne_nil_of_right_ne_nil _ used
    rw [h'.trailingPad used', h.trailingPad used]
  minAlign := Nat.le_trans h.minAlign h'.minAlign
  placed := by rw [h'.placed, h.placed]
  forceDefaults := by rw [h'.forceDefaults, h.forceDefaults]
  sound := h'.sound ∘ h.sound

theorem Grown.extends (h : b.Grown b' front) : b.Extends b' := ⟨front, h⟩

theorem Grown.length (h : b.Grown b' front) :
    b'.used.bytes.length = front.length + b.used.bytes.length := by
  rw [h.used, List.length_append]

theorem Extends.refl (b : Builder) : b.Extends b := (Grown.refl b).extends

theorem Extends.trans (h : b.Extends b') (h' : b'.Extends b'') : b.Extends b'' := by
  obtain ⟨_, h⟩ := h
  obtain ⟨_, h'⟩ := h'
  exact (h.trans h').extends

theorem ofStorage_listed (s : Storage) : (ofStorage s).Listed := ⟨.nil, List.forall_mem_nil _⟩

theorem Listed.mono (h : b.Listed) (placed : b'.placed = b.placed)
    (longer : b.used.bytes.length ≤ b'.used.bytes.length) : b'.Listed := by
  refine ⟨by rw [placed]; exact h.ordered, fun p isPlaced => ?_⟩
  rw [placed] at isPlaced
  exact Nat.le_trans (h.inFront p isPlaced) longer

/-- An object that starts among the new bytes may be placed. -/
theorem Listed.place (h : b.Listed) {p : Placed} (placed : b'.placed = p :: b.placed)
    (behind : b.used.bytes.length < p.rev) (inFront : p.rev ≤ b'.used.bytes.length) : b'.Listed := by
  refine ⟨?_, ?_⟩
  · rw [placed]
    exact List.pairwise_cons.mpr
      ⟨fun q isPlaced => Nat.lt_of_le_of_lt (h.inFront q isPlaced) behind, h.ordered⟩
  · rw [placed]
    exact List.forall_mem_cons.mpr ⟨inFront, fun q isPlaced =>
      Nat.le_trans (h.inFront q isPlaced) (Nat.le_trans (Nat.le_of_lt behind) inFront)⟩

theorem ofStorage_sound (s : Storage) : (ofStorage s).Sound :=
  ⟨Nat.zero_le _, Nat.le_refl 0, Nat.one_dvd 8, ofStorage_listed s⟩

theorem Sound.force (h : b.Sound) (on : Bool) : Sound { b with forceDefaults := on } :=
  ⟨h.small, h.trailingPad, h.minAlign, h.listed.mono rfl (Nat.le_refl _)⟩

end Builder

namespace Build
variable {α β : Type} {b : Builder}

theorem runFrom_bind (x : Build α) (f : α → Build β) :
    runFrom b (x >>= f) =
      match runFrom b x with
      | (.ok a, b') => runFrom b' (f a)
      | (.error e, b') => (.error e, b') := by
  change (ExceptT.run (x >>= f)).run b = _
  rw [ExceptT.run_bind, StateT.run_bind, runFrom]
  rcases (ExceptT.run x).run b with ⟨_ | a, b'⟩ <;> rfl

theorem runFrom_bind_of_ok {x : Build α} {a : α} {b' : Builder} (ran : runFrom b x = (.ok a, b'))
    (f : α → Build β) : runFrom b (x >>= f) = runFrom b' (f a) := by
  rw [runFrom_bind, ran]

theorem runFrom_bind_eq_ok_iff {x : Build α} {f : α → Build β} {r : β} {b' : Builder} :
    runFrom b (x >>= f) = (.ok r, b') ↔
      ∃ a b₁, runFrom b x = (.ok a, b₁) ∧ runFrom b₁ (f a) = (.ok r, b') := by
  rw [runFrom_bind]
  rcases runFrom b x with ⟨_ | a, b₁⟩ <;> simp

theorem runFrom_pure_eq_ok_iff {a r : α} {b' : Builder} :
    runFrom b (pure a) = (.ok r, b') ↔ a = r ∧ b = b' := by
  change (Except.ok a, b) = (.ok r, b') ↔ _
  simp

theorem not_runFrom_throw_eq_ok {e : BuildError} {r : α} {b' : Builder} :
    ¬ runFrom b (throw e) = (.ok r, b') := by
  change ¬ (Except.error e, b) = (.ok r, b')
  simp

/-- A check that does not touch the builder. -/
theorem runFrom_lift_eq_ok_iff {x : Except BuildError α} {r : α} {b' : Builder} :
    runFrom b (liftM x) = (.ok r, b') ↔ x = .ok r ∧ b = b' := by
  change (x, b) = (.ok r, b') ↔ _
  simp

/-- A refusal in front of further steps. -/
theorem runFrom_refuse_eq_ok_iff {p : Prop} [Decidable p] {e : BuildError} {f : α → Build β}
    {x : Build β} {r : β} {b' : Builder} :
    runFrom b (if p then throw e >>= f else x) = (.ok r, b') ↔
      ¬ p ∧ runFrom b x = (.ok r, b') := by
  split
  · rename_i refused
    refine ⟨fun ran => ?_, fun ran => absurd refused ran.1⟩
    obtain ⟨_, _, thrown, _⟩ := runFrom_bind_eq_ok_iff.mp ran
    exact absurd thrown not_runFrom_throw_eq_ok
  · rename_i passed
    exact ⟨fun ran => ⟨passed, ran⟩, And.right⟩

def Returns (steps : Build α) (a : α) : Prop := ∃ b b', runFrom b steps = (.ok a, b')

/-- What a step does: when it succeeds `done` holds of its answer and of the builder after it, and
when it fails it has at most put bytes in front. -/
def Does (steps : Build α) (b : Builder) (done : α → Builder → Prop) : Prop :=
  match runFrom b steps with
  | (.ok a, b') => done a b'
  | (.error _, b') => b.Extends b'

namespace Does
variable {steps : Build α} {f : α → Build β} {mid done : α → Builder → Prop}
  {done' : β → Builder → Prop}

theorem of_pure {a : α} (h : done a b) : Does (pure a) b done := h

theorem of_throw (e : BuildError) : Does (throw e : Build α) b done := Builder.Extends.refl b

theorem throw_bind (e : BuildError) : Does ((throw e : Build α) >>= f) b done' :=
  Builder.Extends.refl b

theorem get_bind {f : Builder → Build β} (h : Does (f b) b done') : Does (get >>= f) b done' := h

theorem of_modify {change : Builder → Builder} {done : PUnit → Builder → Prop}
    (h : done ⟨⟩ (change b)) : Does (modify change) b done := h

theorem mono (first : Does steps b mid) (next : ∀ a b', mid a b' → done a b') :
    Does steps b done := by
  unfold Does at *
  split at first
  · exact next _ _ first
  · exact first

/-- One step after another. -/
theorem bind (first : Does steps b mid) (grows : ∀ a b', mid a b' → b.Extends b')
    (next : ∀ a b', mid a b' → Does (f a) b' done') : Does (steps >>= f) b done' := by
  unfold Does at *
  rw [runFrom_bind]
  cases ran : runFrom b steps with
  | mk result b' =>
    rw [ran] at first
    cases result with
    | error e => exact first
    | ok a =>
      have after := next a b' first
      dsimp only
      cases ran' : runFrom b' (f a) with
      | mk result' b'' =>
        rw [ran'] at after
        cases result' with
        | error e => exact (grows a b' first).trans after
        | ok a' => exact after

theorem modify_bind {change : Builder → Builder} {f : PUnit → Build β}
    (grows : b.Extends (change b)) (next : Does (f ⟨⟩) (change b) done') :
    Does (modify change >>= f) b done' := by
  have first : Does (modify change) b fun _ b' => b' = change b := of_modify rfl
  exact first.bind (fun _ _ same => same ▸ grows) fun _ _ same => same ▸ next

/-- A change that cannot fail may follow a step that does not extend the builder. -/
theorem modify_after {change : Builder → Builder} {r : β} (first : Does steps b mid)
    (next : ∀ a b', mid a b' → done' r (change b')) :
    Does (steps >>= fun _ => modify change >>= fun _ => pure r) b done' := by
  unfold Does at *
  rw [runFrom_bind]
  cases ran : runFrom b steps with
  | mk result b' =>
    rw [ran] at first
    cases result with
    | error e => exact first
    | ok a => exact next a b' first

/-- The answer may be given another form. -/
theorem bind_pure {g : α → β} (first : Does steps b mid) (next : ∀ a b', mid a b' → done' (g a) b') :
    Does (steps >>= fun a => pure (g a)) b done' := by
  unfold Does at *
  rw [runFrom_bind]
  cases ran : runFrom b steps with
  | mk result b' =>
    rw [ran] at first
    cases result with
    | error e => exact first
    | ok a => exact next a b' first

theorem of_ok {a : α} {b' : Builder} (h : Does steps b done) (ran : runFrom b steps = (.ok a, b')) :
    done a b' := by
  rw [Does, ran] at h
  exact h

theorem of_error {e : BuildError} {b' : Builder} (h : Does steps b done)
    (ran : runFrom b steps = (.error e, b')) : b.Extends b' := by
  rw [Does, ran] at h
  exact h

theorem and {also : α → Builder → Prop} (h : Does steps b done) (h' : Does steps b also) :
    Does steps b fun a b' => done a b' ∧ also a b' := by
  unfold Does at *
  split at h
  · rename_i ran
    rw [ran] at h'
    exact ⟨h, h'⟩
  · exact h

end Does

def Leaves (steps : Build α) (b : Builder) (P : Builder → Prop) : Prop := P (runFrom b steps).2

namespace Leaves
variable {steps : Build α} {f : α → Build β} {P : Builder → Prop}

theorem of_pure {a : α} (h : P b) : Leaves (pure a) b P := h

theorem of_throw {e : BuildError} (h : P b) : Leaves (throw e : Build α) b P := h

theorem throw_bind {e : BuildError} (h : P b) : Leaves ((throw e : Build α) >>= f) b P := h

theorem get_bind {f : Builder → Build β} (h : Leaves (f b) b P) : Leaves (get >>= f) b P := h

theorem of_modify {change : Builder → Builder} (h : P (change b)) : Leaves (modify change) b P := h

/-- One step after another. -/
theorem bind (first : Leaves steps b P)
    (next : ∀ a b', runFrom b steps = (.ok a, b') → P b' → Leaves (f a) b' P) :
    Leaves (steps >>= f) b P := by
  unfold Leaves at *
  rw [runFrom_bind]
  cases ran : runFrom b steps with
  | mk result b' =>
    rw [ran] at first
    cases result with
    | error e => exact first
    | ok a => exact next a b' ran first

/-- The next step starts where what was done before holds. -/
theorem bind_does {done : α → Builder → Prop} (first : Leaves steps b P) (does : Does steps b done)
    (next : ∀ a b', done a b' → P b' → Leaves (f a) b' P) : Leaves (steps >>= f) b P :=
  first.bind fun a b' ran => next a b' (does.of_ok ran)

theorem forM {γ : Type} {l : List γ} {f : γ → Build Unit} (h : P b)
    (each : ∀ x b, P b → Leaves (f x) b P) : Leaves (l.forM f) b P := by
  induction l generalizing b with
  | nil => exact h
  | cons x l ih =>
    rw [List.forM_eq_forM, List.forM_cons]
    exact (each x b h).bind fun _ _ _ => ih

end Leaves

/-- Steps that do something leave what holds then as well as of a builder that was extended. -/
theorem Does.leaves {steps : Build α} {done : α → Builder → Prop} {P : Builder → Prop}
    (does : Does steps b done) (failed : ∀ b', b.Extends b' → P b') (next : ∀ a b', done a b' → P b') :
    Leaves steps b P := by
  unfold Leaves
  cases ran : runFrom b steps with
  | mk result b' =>
    cases result with
    | error e => exact failed b' (does.of_error ran)
    | ok a => exact next a b' (does.of_ok ran)

end Build

namespace Builder
open Build
variable {b b' : Builder}

/-- More room changes only what is free. -/
theorem makeRoom_snd (want : Nat) (b : Builder) :
    ∃ free requests, (makeRoom want b).2 = { b with free, requests } := by
  fun_induction makeRoom want b with
  | case1 b small size answer => exact ⟨b.free, b.requests + 1, rfl⟩
  | case2 b small front answer ih =>
    simp only [List.unattach_reverse, List.unattach_attach] at ih
    obtain ⟨free, requests, same⟩ := ih
    exact ⟨free, requests, same⟩
  | case3 b large => exact ⟨b.free, b.requests, rfl⟩

theorem le_of_makeRoom {want : Nat} {b : Builder} {u : Unit}
    (h : (makeRoom want b).1 = .ok u) : want ≤ (makeRoom want b).2.free.size := by
  fun_induction makeRoom want b with
  | case1 b small size answer => cases h
  | case2 b small front answer ih =>
    simp only [List.unattach_reverse, List.unattach_attach] at ih
    exact ih h
  | case3 b large => exact Nat.le_of_not_lt large

private theorem grown_of_free (b : Builder) (free : Block) (requests : Nat) :
    b.Grown { b with free, requests } [] :=
  ⟨rfl, fun _ => rfl, Nat.le_refl _, rfl, rfl, fun h =>
    ⟨h.small, h.trailingPad, h.minAlign, h.listed.mono rfl (Nat.le_refl _)⟩⟩

/-- Claiming bytes does not use them yet. -/
theorem claim_does (want : Nat) :
    (claim want).Does b fun old b' => old.length = want ∧
      b.used.bytes.length + want ≤ maxBufferSize ∧
        ∃ free requests, b' = { b with free, requests } := by
  have size := b.used.size_eq
  unfold claim
  apply Does.get_bind
  dsimp only
  by_cases large : maxBufferSize < b.used.size + want
  · rw [if_pos large]
    exact Does.throw_bind _
  · rw [if_neg large]
    obtain ⟨free, requests, same⟩ := makeRoom_snd want b
    have room := @le_of_makeRoom want b ()
    cases made : makeRoom want b with
    | mk result b₁ =>
      rw [made] at room same
      dsimp only at room same
      cases result with
      | error n =>
        change b.Extends b₁
        rw [same]
        exact (grown_of_free b free requests).extends
      | ok u =>
        refine ⟨?_, by omega, b₁.free.drop want, requests, by rw [same]⟩
        have enough := room rfl
        have length := b₁.free.size_eq
        simp only [List.length_reverse, List.length_take]
        omega

/-- The step that puts `bytes` in front. -/
private theorem grown_push (bytes : List UInt8) (free : Block) (requests : Nat)
    (small : b.used.bytes.length + bytes.length ≤ maxBufferSize) :
    b.Grown { b with free, requests, used := b.used.push bytes } bytes := by
  refine ⟨rfl, fun _ => rfl, Nat.le_refl _, rfl, rfl, fun h =>
    ⟨?_, ?_, h.minAlign, h.listed.mono rfl ?_⟩⟩
  · change (bytes ++ b.used.bytes).length ≤ maxBufferSize
    rw [List.length_append]
    omega
  · change b.trailingPad ≤ (bytes ++ b.used.bytes).length
    rw [List.length_append]
    exact Nat.le_trans h.trailingPad (Nat.le_add_left _ _)
  · change b.used.bytes.length ≤ (bytes ++ b.used.bytes).length
    rw [List.length_append]
    exact Nat.le_add_left _ _

theorem push_does (bytes : List UInt8) :
    (push bytes).Does b fun _ b' =>
      b.Grown b' bytes ∧ b'.trailingPad = b.trailingPad ∧ b'.minAlign = b.minAlign := by
  unfold push
  refine Does.bind (claim_does bytes.length) ?_ ?_
  · intro _ _ h
    obtain ⟨_, _, free, requests, rfl⟩ := h
    exact (grown_of_free b free requests).extends
  · intro _ _ given
    obtain ⟨_, small, free, requests, rfl⟩ := given
    exact Does.of_modify ⟨grown_push bytes free requests small, rfl, rfl⟩

theorem reserve_does (count : Nat) :
    (reserve count).Does b fun _ b' => ∃ old, old.length = count ∧ b.Grown b' old ∧
      b'.trailingPad = b.trailingPad := by
  unfold reserve
  refine Does.bind (claim_does count) ?_ ?_
  · intro _ _ h
    obtain ⟨_, _, free, requests, rfl⟩ := h
    exact (grown_of_free b free requests).extends
  · intro old _ given
    obtain ⟨length, small, free, requests, rfl⟩ := given
    rw [← length] at small
    exact Does.of_modify ⟨old, length, grown_push old free requests small, rfl⟩

/-- Aligning pads. No padding is counted as the buffer's own when none is needed, and all of it when
nothing is behind it. -/
theorem align_does {length alignment : Nat} (divides : alignment ∣ 8) :
    (align length alignment).Does b fun _ b' =>
      b.Grown b' (List.replicate (padding (b.used.bytes.length + length) alignment) 0) ∧
        b'.minAlign = max b.minAlign alignment ∧
          (alignment ∣ b.used.bytes.length + length → b'.trailingPad = b.trailingPad) ∧
            (b.Sound → b.used.bytes = [] → b'.trailingPad = b'.used.bytes.length) := by
  have raised : b.Grown { b with minAlign := max b.minAlign alignment } [] :=
    ⟨rfl, fun _ => rfl, Nat.le_max_left _ _, rfl, rfl,
      fun h => ⟨h.small, h.trailingPad, max_dvd_eight h.minAlign divides,
        h.listed.mono rfl (Nat.le_refl _)⟩⟩
  unfold align
  have size := b.used.size_eq
  refine Does.modify_bind raised.extends (Does.get_bind ?_)
  dsimp only
  rw [size]
  by_cases fits : padding (b.used.bytes.length + length) alignment = 0
  · rw [if_neg (not_not.mpr fits), fits]
    refine Does.of_pure ⟨raised, rfl, fun _ => rfl, fun sound empty => ?_⟩
    have inside := sound.trailingPad
    rw [empty] at inside ⊢
    exact Nat.le_zero.mp inside
  · have uneven : ¬ alignment ∣ b.used.bytes.length + length := fun even =>
      fits (padding_of_dvd divides even)
    rw [if_pos fits]
    apply Does.bind (push_does _) (fun _ _ h => h.1.extends)
    intro _ b' given
    obtain ⟨grown, pad, asked⟩ := given
    have whole := raised.trans grown
    rw [List.append_nil] at whole
    by_cases empty : b.used.bytes.length = 0
    · rw [if_pos empty]
      refine Does.of_modify ⟨?_, asked, fun even => absurd even uneven, fun _ _ => ?_⟩
      case refine_2 =>
        dsimp only
        rw [whole.length, List.length_replicate, empty, Nat.add_zero]
      refine ⟨whole.used, fun used => absurd (List.length_eq_zero_iff.mp empty) used,
        whole.minAlign, whole.placed, whole.forceDefaults, ?_⟩
      intro sound
      have sound' := whole.sound sound
      refine ⟨sound'.small, ?_, sound'.minAlign, sound'.listed.mono rfl (Nat.le_refl _)⟩
      dsimp only
      rw [whole.length, List.length_replicate]
      exact Nat.le_add_right _ _
    · rw [if_neg empty]
      exact Does.of_pure ⟨whole, asked, fun even => absurd even uneven,
        fun _ none => absurd (List.length_eq_zero_iff.mpr none) empty⟩

/-- What was aligned for ends aligned. -/
theorem Grown.aligned {length alignment : Nat} (divides : alignment ∣ 8)
    (padded : b.Grown b' (List.replicate (padding (b.used.bytes.length + length) alignment) 0)) :
    alignment ∣ b'.used.bytes.length + length := by
  have whole := dvd_add_padding (b.used.bytes.length + length) divides
  rw [padded.length, List.length_replicate]
  rwa [Nat.add_comm (b.used.bytes.length + length), ← Nat.add_assoc] at whole

structure Stored (b b' : Builder) (alignment : Nat) (bytes : List UInt8) : Prop where
  grown : b.Grown b' (bytes ++
    List.replicate (padding (b.used.bytes.length + bytes.length) alignment) 0)
  aligned : alignment ∣ b'.used.bytes.length
  minAlign : b'.minAlign = max b.minAlign alignment
  trailingPad : b.Sound → b'.trailingPad + bytes.length ≤ b'.used.bytes.length
  samePad : alignment ∣ b.used.bytes.length + bytes.length → b'.trailingPad = b.trailingPad
  last : b.Sound → b.used.bytes = [] → b'.used.bytes.length = b'.trailingPad + bytes.length

theorem Stored.length {alignment : Nat} {bytes : List UInt8} (h : b.Stored b' alignment bytes) :
    b'.used.bytes.length = usedAfter b.used.bytes.length bytes.length alignment := by
  rw [h.grown.length, List.length_append, List.length_replicate, usedAfter]
  omega

theorem Stored.asked {alignment : Nat} {bytes : List UInt8} (h : b.Stored b' alignment bytes) :
    alignment ≤ b'.minAlign := by
  rw [h.minAlign]
  exact Nat.le_max_right _ _

/-- No padding is counted as the buffer's own where the bytes keep an alignment. -/
theorem Stored.samePad_of_dvd {alignment : Nat} {bytes : List UInt8}
    (h : b.Stored b' alignment bytes) (divides : alignment ∣ bytes.length) :
    b'.trailingPad = b.trailingPad := by
  by_cases used : b.used.bytes = []
  · apply h.samePad
    rw [used, List.length_nil, Nat.zero_add]
    exact divides
  · exact h.grown.trailingPad used

private theorem stored_of_grown {b₁ b₂ : Builder} {alignment : Nat} {bytes : List UInt8}
    (divides : alignment ∣ 8)
    (padded : b.Grown b₁
      (List.replicate (padding (b.used.bytes.length + bytes.length) alignment) 0))
    (asked : b₁.minAlign = max b.minAlign alignment)
    (samePad : alignment ∣ b.used.bytes.length + bytes.length → b₁.trailingPad = b.trailingPad)
    (allPad : b.Sound → b.used.bytes = [] → b₁.trailingPad = b₁.used.bytes.length)
    (pushed : b₁.Grown b₂ bytes)
    (same : b₂.trailingPad = b₁.trailingPad ∧ b₂.minAlign = b₁.minAlign) :
    b.Stored b₂ alignment bytes := by
  obtain ⟨pad, minAlign⟩ := same
  have grown := padded.trans pushed
  refine ⟨grown, ?_, by rw [minAlign, asked], ?_, fun even => by rw [pad, samePad even],
    fun sound empty => by rw [pad, allPad sound empty, pushed.length, Nat.add_comm]⟩
  · rw [pushed.length, Nat.add_comm]
    exact padded.aligned divides
  · intro sound
    have := (padded.sound sound).trailingPad
    rw [pad, pushed.length]
    omega

/-- Padding to an alignment and then writing. -/
theorem store_bind {α : Type} {length alignment : Nat} {bytes : List UInt8}
    {f : Unit → Build α} {done : α → Builder → Prop} (divides : alignment ∣ 8)
    (same : bytes.length = length)
    (next : ∀ b', b.Stored b' alignment bytes → (f ()).Does b' done) :
    (align length alignment >>= fun _ => push bytes >>= f).Does b done := by
  subst same
  apply Does.bind (align_does divides) (fun _ _ h => h.1.extends)
  intro _ b₁ given
  obtain ⟨padded, asked, samePad, allPad⟩ := given
  apply Does.bind (push_does bytes) (fun _ _ h => h.1.extends)
  intro _ b₂ given
  obtain ⟨pushed, same⟩ := given
  exact next b₂ (stored_of_grown divides padded asked samePad allPad pushed same)

theorem store_does {length alignment : Nat} {bytes : List UInt8} (divides : alignment ∣ 8)
    (same : bytes.length = length) :
    (align length alignment >>= fun _ => push bytes).Does b fun _ b' =>
      b.Stored b' alignment bytes := by
  have stored : (align length alignment >>= fun _ => push bytes >>= pure).Does b fun _ b' =>
      b.Stored b' alignment bytes :=
    store_bind divides same fun _ stored => Does.of_pure stored
  simpa only [bind_pure] using stored

theorem pushWord_does (n : Nat) :
    (pushWord n).Does b fun _ b' => b.Stored b' offsetSize (Bytes.encode offsetSize n) :=
  store_does (by decide) (Bytes.length_encode _ _)

/-- A reference is written only to something that is already behind it. -/
theorem pushReference_does (rev : Nat) :
    (pushReference rev).Does b fun _ b' =>
      b.Stored b' offsetSize (Bytes.encode offsetSize (b'.used.bytes.length - rev)) ∧
        0 < rev ∧ rev + offsetSize ≤ b'.used.bytes.length := by
  unfold pushReference
  apply Does.bind (align_does (by decide)) (fun _ _ h => h.1.extends)
  intro _ b₁ given
  obtain ⟨padded, asked, samePad, allPad⟩ := given
  apply Does.get_bind
  dsimp only
  have size := b₁.used.size_eq
  cases checked : Contract.checkReference rev (b₁.used.size + offsetSize) with
  | error violation => exact Does.of_throw _
  | ok _ =>
    apply Does.mono (push_does _)
    intro _ b₂ given
    obtain ⟨pushed, same⟩ := given
    have length : b₂.used.bytes.length = b₁.used.size + offsetSize := by
      rw [pushed.length, Bytes.length_encode, size, Nat.add_comm]
    rw [length]
    refine ⟨stored_of_grown (by decide) ?_ asked ?_ allPad pushed same, ?_⟩
    · rwa [Bytes.length_encode]
    · rwa [Bytes.length_encode]
    · unfold Contract.checkReference at checked
      split at checked
      · cases checked
      · split at checked
        · exact ⟨by omega, by assumption⟩
        · cases checked

theorem checkPlaced_does (p : Placed) :
    (checkPlaced p).Does b fun _ b' => b' = b ∧ p ∈ b.placed := by
  unfold checkPlaced
  apply Does.get_bind
  cases found : p.isAmong b.placed with
  | true => exact Does.of_pure ⟨rfl, Placed.mem_of_isAmong found⟩
  | false => exact Does.of_throw _

end Builder
end FlatTable

import FlatTable.Proofs.Builder.Held
import FlatTable.Proofs.Builder.History

/-! Strings and vectors as they are laid out, and that creating them lays them out. -/
namespace FlatTable
open Layout Build

namespace Builder
variable {b b' : Builder} {rev : Nat}

structure StringLaid (b : Builder) (rev : Nat) (s : String) : Prop where
  aligned : offsetSize ∣ rev
  held : b.Held rev (Bytes.encode offsetSize (Text.encodeUtf8 s).length ++
    (Text.encodeUtf8 s ++ [0]))

structure ScalarsLaid (b : Builder) (rev : Nat) (t : ScalarType) (items : List Value) :
    Prop where
  aligned : offsetSize ∣ rev
  counted : b.Held rev (Bytes.encode offsetSize items.length)
  elementsAligned : t.width ∣ rev - offsetSize
  minAlign : t.width ≤ b.minAlign
  typed : ∀ v ∈ items, v.type = t
  item : ∀ i v, items[i]? = some v → b.Held (rev - offsetSize - i * t.width) v.bytes

structure ReferencesLaid (b : Builder) (rev : Nat) (targets : List Nat) : Prop where
  aligned : offsetSize ∣ rev
  counted : b.Held rev (Bytes.encode offsetSize targets.length)
  refers : b.RefersEach (rev - offsetSize) targets

theorem StringLaid.kept {s : String} (h : b.StringLaid rev s) (keeps : b.Keeps b') :
    b'.StringLaid rev s :=
  ⟨h.aligned, h.held.kept (by simp only [List.length_append, List.length_cons]; omega) keeps⟩

theorem ScalarsLaid.kept {t : ScalarType} {items : List Value} (h : b.ScalarsLaid rev t items)
    (keeps : b.Keeps b') : b'.ScalarsLaid rev t items where
  aligned := h.aligned
  counted := h.counted.kept (by rw [Bytes.length_encode]; decide) keeps
  elementsAligned := h.elementsAligned
  minAlign := Nat.le_trans h.minAlign keeps.minAlign
  typed := h.typed
  item i v found := (h.item i v found).kept (by rw [v.length_bytes]; exact v.type.width_pos) keeps

theorem ReferencesLaid.kept {targets : List Nat} (h : b.ReferencesLaid rev targets)
    (keeps : b.Keeps b') : b'.ReferencesLaid rev targets where
  aligned := h.aligned
  counted := h.counted.kept (by rw [Bytes.length_encode]; decide) keeps
  refers := h.refers.kept keeps

/-- `b'` is `b` after an object of this kind has been created, whose start is among the new bytes. -/
def Creates (b b' : Builder) (rev : Nat) (kind : ObjectKind) : Prop :=
  ∃ b₁ front, b.Grown b₁ front ∧ b.used.bytes.length < rev ∧ rev ≤ b₁.used.bytes.length ∧
    b' = { b₁ with placed := ⟨rev, kind⟩ :: b.placed }

theorem Creates.sound {kind : ObjectKind} (h : b.Creates b' rev kind) (sound : b.Sound) : b'.Sound := by
  obtain ⟨b₁, front, grown, behind, inFront, rfl⟩ := h
  obtain ⟨small, trailingPad, minAlign, _⟩ := grown.sound sound
  exact ⟨small, trailingPad, minAlign, sound.listed.place rfl behind inFront⟩

theorem Creates.keeps {kind : ObjectKind} (h : b.Creates b' rev kind) : b.Keeps b' := by
  obtain ⟨b₁, front, grown, _, _, rfl⟩ := h
  exact grown.keeps.trans (keeps_placed b₁ _)

theorem place_does {kind : ObjectKind} {done : Ref kind → Builder → Prop}
    (h : done ⟨b.used.size⟩ { b with placed := ⟨b.used.size, kind⟩ :: b.placed }) :
    (place kind).Does b done := h

/-- An object that starts with its length, everything behind the length being written. -/
private theorem counted_does {kind : ObjectKind} {b₁ : Builder} {front : List UInt8} (n : Nat)
    (grown : b.Grown b₁ front) (even : offsetSize ∣ b₁.used.bytes.length) :
    (pushWord n >>= fun _ => place kind).Does b₁ fun r b' => b.Creates b' r.rev kind ∧
      b₁.Keeps b' ∧ b'.used.bytes = Bytes.encode offsetSize n ++ b₁.used.bytes ∧
        b'.trailingPad = b₁.trailingPad ∧ r.rev = b'.used.bytes.length ∧ offsetSize ∣ r.rev := by
  refine Does.bind (pushWord_does n) (fun _ _ h => h.grown.extends) fun _ b₂ word => place_does ?_
  obtain ⟨exact, pad⟩ := word.exact (by decide)
    (by rw [Bytes.length_encode]; exact Nat.dvd_add even (Nat.dvd_refl _))
  have size := b₂.used.size_eq
  have longer := (grown.trans exact).length
  rw [List.length_append, Bytes.length_encode, ← size] at longer
  refine ⟨⟨b₂, _, grown.trans exact, ?_, Nat.le_of_eq size, ?_⟩, ?_, exact.used, pad, size, ?_⟩
  · dsimp only
    rw [longer]
    simp only [offsetSize]
    omega
  · rw [exact.placed, grown.placed]
  · exact ⟨⟨_, exact.used⟩, exact.trailingPad, exact.minAlign⟩
  · dsimp only
    rw [size]
    exact word.aligned

theorem createString_does (sound : b.Sound) (s : String) :
    (createString s).Does b fun r b' => b.Creates b' r.rev .string ∧ b'.StringLaid r.rev s ∧
      b.used.bytes.length + (offsetSize + ((Text.encodeUtf8 s).length + 1)) ≤ r.rev ∧
        (b.used.bytes = [] →
          b'.trailingPad + (offsetSize + ((Text.encodeUtf8 s).length + 1)) = r.rev) := by
  unfold createString
  apply store_bind (by decide) (by simp)
  intro b₁ body
  apply Does.mono (counted_does _ body.grown body.aligned)
  intro r b' h
  obtain ⟨creates, _, used, pad, rev, aligned⟩ := h
  refine ⟨creates, ⟨aligned, ?_⟩, ?_, fun empty => ?_⟩
  · rw [rev]
    have before := body.trailingPad sound
    obtain ⟨back, parts⟩ : ∃ back, b'.used.bytes =
        (Bytes.encode offsetSize (Text.encodeUtf8 s).length ++ (Text.encodeUtf8 s ++ [0])) ++ back :=
      ⟨_, by rw [used, body.grown.used]; simp only [List.append_assoc]; rfl⟩
    refine .of_append parts ?_
    rw [pad, used]
    simp only [List.length_append] at before ⊢
    omega
  · rw [rev, used, body.grown.used]
    simp only [List.length_append, Bytes.length_encode, List.length_cons, List.length_nil]
    omega
  · have last := body.last sound empty
    rw [rev, used, pad, List.length_append, Bytes.length_encode, last]
    simp only [List.length_append, List.length_cons, List.length_nil]
    omega

/-- The length in front of what a vector holds. -/
private theorem held_count {b₁ : Builder} {n : Nat} (sound : b₁.Sound)
    (used : b'.used.bytes = Bytes.encode offsetSize n ++ b₁.used.bytes)
    (pad : b'.trailingPad = b₁.trailingPad) :
    b'.Held b'.used.bytes.length (Bytes.encode offsetSize n) := by
  refine .of_append used ?_
  have := sound.trailingPad
  rw [pad, used, List.length_append]
  omega

theorem createVector_does (sound : b.Sound) (t : ScalarType) (items : List Value) :
    (createVector t items).Does b fun r b' =>
      b.Creates b' r.rev (.vector (.scalar t)) ∧ b'.ScalarsLaid r.rev t items ∧
        b.used.bytes.length + (offsetSize + items.length * t.width) ≤ r.rev ∧
          (b.used.bytes = [] →
            b'.trailingPad + (offsetSize + items.length * t.width) = r.rev) := by
  unfold createVector
  split
  · exact Does.of_throw _
  · rename_i all
    have typed : ∀ v ∈ items, v.type = t := by
      intro v member
      simpa using List.find?_eq_none.mp all v member
    have divides : max t.width offsetSize ∣ 8 := max_dvd_eight t.width_dvd_eight (by decide)
    apply store_bind divides rfl
    intro b₁ body
    have even : offsetSize ∣ b₁.used.bytes.length :=
      Nat.dvd_trans (dvd_of_le_of_dvd_eight (by decide) divides (Nat.le_max_right _ _)) body.aligned
    have elements : t.width ∣ b₁.used.bytes.length :=
      Nat.dvd_trans (dvd_of_le_of_dvd_eight t.width_dvd_eight divides (Nat.le_max_left _ _))
        body.aligned
    apply Does.mono (counted_does _ body.grown even)
    intro r b' h
    obtain ⟨creates, keeps, used, pad, rev, aligned⟩ := h
    have longer := body.grown.length
    have start : r.rev - offsetSize = b₁.used.bytes.length := by
      rw [rev, used, List.length_append, Bytes.length_encode]
      omega
    have width (v : Value) (member : v ∈ items) : v.bytes.length = t.width := by
      rw [v.length_bytes, typed v member]
    refine ⟨creates, ⟨aligned, ?_, start ▸ elements,
      Nat.le_trans (Nat.le_max_left _ _) (Nat.le_trans body.asked keeps.minAlign), typed, ?_⟩, ?_,
      fun empty => ?_⟩
    · rw [rev]
      exact held_count (body.grown.sound sound) used pad
    · intro i v found
      rw [start]
      have item := (body.held sound).item width found
      refine item.kept ?_ keeps
      rw [v.length_bytes]
      exact v.type.width_pos
    · have body := length_flatMap width
      rw [rev, used, List.length_append, Bytes.length_encode, longer]
      simp only [List.length_append, body]
      omega
    · have last := body.last sound empty
      rw [length_flatMap width] at last
      rw [rev, used, pad, List.length_append, Bytes.length_encode, last]
      omega

/-- References written from the last to the first. -/
private theorem references_does (sound : b.Sound) (items : List Placed)
    (even : offsetSize ∣ b.used.bytes.length) :
    (items.reverse.forM fun p => pushReference p.rev).Does b fun _ b' =>
      b.Extends b' ∧ b'.trailingPad = b.trailingPad ∧ offsetSize ∣ b'.used.bytes.length ∧
        b'.RefersEach b'.used.bytes.length (items.map Placed.rev) ∧
          b'.used.bytes.length = b.used.bytes.length + items.length * offsetSize := by
  induction items with
  | nil => exact Does.of_pure ⟨Extends.refl b, rfl, even, by simp [RefersEach], by simp⟩
  | cons p items ih =>
    rw [List.reverse_cons, List.forM_eq_forM, List.forM_append]
    apply Does.bind ih (fun _ _ h => h.1)
    intro _ b₁ given
    obtain ⟨⟨front, grown⟩, pad, even₁, refers, longer⟩ := given
    rw [List.forM_cons]
    apply Does.bind (pushReference_does p.rev) (fun _ _ h => h.1.grown.extends)
    intro _ b₂ given
    obtain ⟨stored, positive, behind⟩ := given
    obtain ⟨exact, pad₂⟩ := stored.exact (by decide)
      (by rw [Bytes.length_encode]; exact Nat.dvd_add even₁ (Nat.dvd_refl _))
    have length : b₂.used.bytes.length = b₁.used.bytes.length + offsetSize := by
      rw [exact.length, Bytes.length_encode, Nat.add_comm]
    refine Does.of_pure ⟨(grown.trans exact).extends, by rw [pad₂, pad], stored.aligned, ?_,
      by rw [length, longer, List.length_cons, Nat.succ_mul, Nat.add_assoc]⟩
    intro i target found
    cases i with
    | zero =>
      obtain rfl : p.rev = target := by simpa using found
      rw [Nat.zero_mul, Nat.sub_zero]
      exact ⟨positive, behind, stored.aligned, stored.held (grown.sound sound)⟩
    | succ i =>
      have rest := (refers i target (by simpa using found)).kept exact.keeps
      rwa [length, Nat.succ_mul, Nat.add_comm (i * offsetSize), ← Nat.sub_sub, Nat.add_sub_cancel]

theorem checkElements_does (target : ObjectKind) (items : List Placed) :
    (checkElements target items).Does b fun _ b' => b' = b ∧
      ∀ p ∈ items, p ∈ b.placed ∧ p.kind = target := by
  induction items with
  | nil => exact Does.of_pure ⟨rfl, by simp⟩
  | cons p items ih =>
    unfold checkElements
    apply Does.bind (checkPlaced_does p) (fun _ _ h => h.1 ▸ Extends.refl b)
    intro _ _ given
    obtain ⟨rfl, placed⟩ := given
    dsimp only
    split
    · exact Does.throw_bind _
    · rename_i kind
      apply Does.mono ih
      intro _ _ given
      obtain ⟨rfl, rest⟩ := given
      exact ⟨rfl, List.forall_mem_cons.mpr ⟨⟨placed, not_not.mp kind⟩, rest⟩⟩

theorem createReferenceVector_does (sound : b.Sound) (element : ElementKind) (target : ObjectKind)
    (items : List Placed) :
    (createReferenceVector element target items).Does b fun r b' =>
      b.Creates b' r.rev (.vector element) ∧ b'.ReferencesLaid r.rev (items.map Placed.rev) ∧
        b.used.bytes.length + (offsetSize + items.length * offsetSize) ≤ r.rev ∧
          (∀ p ∈ items, p ∈ b.placed ∧ p.kind = target) ∧
            (b.used.bytes = [] →
              b'.trailingPad + (offsetSize + items.length * offsetSize) = r.rev) := by
  unfold createReferenceVector
  apply Does.bind (checkElements_does target items) (fun _ _ h => h.1 ▸ Extends.refl b)
  intro _ b given
  obtain ⟨rfl, placed⟩ := given
  apply Does.bind (align_does (by decide)) (fun _ _ h => h.1.extends)
  intro _ b₁ given
  obtain ⟨padded, _, _, allPad⟩ := given
  have even : offsetSize ∣ b₁.used.bytes.length :=
    (Nat.dvd_add_iff_left (Nat.dvd_mul_left _ _)).mpr (padded.aligned (by decide))
  apply Does.bind (references_does (padded.sound sound) items even) (fun _ _ h => h.1)
  intro _ b₂ given
  obtain ⟨⟨front, grown⟩, pad, even₂, refers, longer⟩ := given
  apply Does.mono (counted_does _ (padded.trans grown) even₂)
  intro r b₃ given
  obtain ⟨creates, keeps, used, pad₃, rev, aligned⟩ := given
  have start : r.rev - offsetSize = b₂.used.bytes.length := by
    rw [rev, used, List.length_append, Bytes.length_encode]
    omega
  refine ⟨creates, ⟨aligned, ?_, start ▸ refers.kept keeps⟩, ?_, placed, fun empty => ?_⟩
  · rw [rev, List.length_map]
    exact held_count ((padded.trans grown).sound sound) used pad₃
  · have inFront := padded.length
    rw [rev, used, List.length_append, Bytes.length_encode]
    omega
  · rw [rev, used, pad₃, pad, allPad sound empty, List.length_append, Bytes.length_encode, longer]
    omega

end Builder
end FlatTable

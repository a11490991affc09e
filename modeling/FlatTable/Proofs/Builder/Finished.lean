import FlatTable.Proofs.Builder.Held

/-! The finished buffer: what was held at a distance from the end is found at the position that this
makes, and the root's reference comes first. -/
namespace FlatTable
open Layout Build

namespace Builder
variable {b b' : Builder} {rev : Nat} {bytes : List UInt8}

def positionOf (b : Builder) (rev : Nat) : Nat := b.used.bytes.length - rev

theorem size_data (b : Builder) : b.finished.data.size = b.used.bytes.length - b.trailingPad := by
  have size := b.used.size_eq
  simp only [finished, List.size_toArray, List.length_take, size]
  omega

theorem positionOf_sub {k : Nat} (h : k ≤ rev) (inFront : rev ≤ b.used.bytes.length) :
    b.positionOf (rev - k) = b.positionOf rev + k := by
  simp only [positionOf]
  omega

theorem dvd_positionOf {a : Nat} (whole : a ∣ b.used.bytes.length) (h : a ∣ rev) :
    a ∣ b.positionOf rev := Nat.dvd_sub whole h

/-- What is held is read. -/
theorem Held.slice? (h : b.Held rev bytes) :
    b.finished.data.slice? (b.positionOf rev) bytes.length = some bytes := by
  obtain ⟨front, back, used, length⟩ := h.split
  have before := h.before
  have total : b.used.bytes.length = front.length + (bytes.length + back.length) := by
    rw [used]
    simp only [List.length_append]
  refine Buffer.slice?_eq_some_iff.mpr ⟨rfl, front,
    back.take (back.length - b.trailingPad), ?_, by simp only [positionOf]; omega⟩
  simp only [finished, b.used.size_eq]
  rw [used, List.take_append, List.take_append, List.take_of_length_le, List.take_of_length_le]
  · congr 3
    simp only [List.length_append]
    omega
  · simp only [List.length_append]
    omega
  · simp only [List.length_append]
    omega

theorem Held.nat? {width n : Nat} (h : b.Held rev (Bytes.encode width n)) (fits : n < 256 ^ width) :
    b.finished.data.nat? (b.positionOf rev) width = some n := by
  have read := h.slice?
  rw [Bytes.length_encode] at read
  exact Buffer.nat?_of_slice? read fits

theorem Held.value? {v : Value} (h : b.Held rev v.bytes) :
    b.finished.data.value? v.type (b.positionOf rev) = some v := by
  have read := h.slice?
  rw [v.length_bytes] at read
  exact Buffer.value?_of_slice? read

/-- A reference leads to the position of what it refers to. -/
theorem Refers.target? {holder target : Nat} (h : b.Refers holder target) (sound : b.Sound) :
    b.finished.data.target? (b.positionOf holder) = some (b.positionOf target) := by
  have inFront := h.held.le
  have small := sound.small
  have behind := h.behind
  have read := h.held.nat? (by simp only [maxBufferSize] at small; simp only [offsetSize]; omega)
  rw [Buffer.target?, read, Option.map_some]
  simp only [positionOf, Option.some.injEq]
  omega

/-- A builder that is finished: the root's reference is in front and the identifier behind it, and
everything starts at a multiple of the greatest alignment. -/
structure Rooted (b : Builder) (root : Nat) (tag : List UInt8) : Prop where
  whole : b.minAlign ∣ b.used.bytes.length
  aligned : offsetSize ≤ b.minAlign
  reference : b.Refers b.used.bytes.length root
  tagged : b.Held (b.used.bytes.length - offsetSize) tag

private theorem pushReference_rooted {b₁ : Builder} {root : Nat} {tag : List UInt8}
    {alignment : Nat} (grows : b.Extends b₁) (sound : b₁.Sound)
    (minAlign : b₁.minAlign = alignment) (divides : alignment ∣ 8) (large : offsetSize ≤ alignment)
    (whole : alignment ∣ b₁.used.bytes.length + offsetSize)
    (tagged : b₁.Held b₁.used.bytes.length tag)
    (room : b.used.bytes.length + tag.length ≤ b₁.used.bytes.length) :
    (pushReference root).Does b₁ fun _ b' => b.Extends b' ∧ b'.Rooted root tag ∧
      b.used.bytes.length + tag.length + offsetSize ≤ b'.used.bytes.length := by
  apply Does.mono (pushReference_does root)
  intro _ b₂ h
  obtain ⟨stored, positive, behind⟩ := h
  have word : offsetSize ∣ alignment := dvd_of_le_of_dvd_eight (by decide) divides large
  obtain ⟨exact, pad⟩ := stored.exact (by decide)
    (by rw [Bytes.length_encode]; exact Nat.dvd_trans word whole)
  have length : b₂.used.bytes.length = b₁.used.bytes.length + offsetSize := by
    rw [exact.length, Bytes.length_encode, Nat.add_comm]
  have same : b₂.minAlign = alignment := by
    rw [stored.minAlign, minAlign, Nat.max_eq_left large]
  refine ⟨grows.trans exact.extends, ⟨by rw [same, length]; exact whole, by rw [same]; exact large,
    ⟨positive, behind, stored.aligned, stored.held sound⟩, ?_⟩, by rw [length]; omega⟩
  obtain ⟨front, back, used, total⟩ := tagged.split
  rw [length, Nat.add_sub_cancel]
  refine ⟨⟨_ ++ front, back, by rw [exact.used, used, List.append_assoc], total⟩, ?_⟩
  rw [pad]
  exact tagged.before

theorem pushRoot_does (root : Ref .table) (identifier : Option Identifier) (sound : b.Sound) :
    (pushRoot root identifier).Does b fun _ b' => root.placed ∈ b.placed ∧ b.Extends b' ∧
      b'.Rooted root.rev ((identifier.map Identifier.bytes).getD []) ∧
        b.used.bytes.length + ((identifier.map Identifier.bytes).getD []).length + offsetSize ≤
          b'.used.bytes.length := by
  have divides : max b.minAlign offsetSize ∣ 8 := max_dvd_eight sound.minAlign (by decide)
  unfold pushRoot
  apply Does.bind (checkPlaced_does root.placed) (fun _ _ h => h.1 ▸ Extends.refl b)
  intro _ b given
  obtain ⟨rfl, placed⟩ := given
  apply Does.get_bind
  apply Does.bind (align_does divides) (fun _ _ h => h.1.extends)
  intro _ b₁ given
  obtain ⟨padded, minAlign, _⟩ := given
  rw [← Nat.max_assoc, Nat.max_self] at minAlign
  have whole := padded.aligned divides
  have length := padded.length
  rw [List.length_replicate] at length
  have sound₁ := padded.sound sound
  cases identifier with
  | none =>
    simp only [Option.map_none, Option.getD_none, List.length_nil, Nat.add_zero] at whole length ⊢
    have tagged : b₁.Held b₁.used.bytes.length [] := .of_append rfl sound₁.trailingPad
    refine Does.mono (pushReference_rooted padded.extends sound₁ minAlign divides
      (Nat.le_max_right _ _) whole tagged (by rw [List.length_nil]; omega)) fun _ _ h => ⟨placed, h⟩
  | some identifier =>
    simp only [Option.map_some, Option.getD_some] at whole length ⊢
    apply Does.bind (push_does _) (fun _ _ h => h.1.extends)
    intro _ b₂ given
    obtain ⟨pushed, pad, same⟩ := given
    have longer := pushed.length
    have tagged : b₂.Held b₂.used.bytes.length identifier.bytes := by
      have := sound₁.trailingPad
      exact .of_append pushed.used (by omega)
    refine Does.mono (pushReference_rooted (padded.trans pushed).extends (pushed.sound sound₁)
      (same.trans minAlign) divides (Nat.le_max_right _ _) ?_ tagged (by omega))
      fun _ _ h => ⟨placed, h⟩
    rwa [longer, Nat.add_comm identifier.bytes.length, Nat.add_assoc, Nat.add_comm identifier.bytes.length]

theorem finish_does (root : Ref .table) (identifier : Option Identifier) (sound : b.Sound) :
    (finish root identifier).Does b fun f b' => f = b'.finished ∧ root.placed ∈ b.placed ∧
      b.Extends b' ∧ b'.Rooted root.rev ((identifier.map Identifier.bytes).getD []) ∧
        b.used.bytes.length + ((identifier.map Identifier.bytes).getD []).length + offsetSize ≤
          b'.used.bytes.length := by
  unfold finish
  apply Does.bind (pushRoot_does root identifier sound) (fun _ _ h => h.2.1)
  exact fun _ b' h => Does.get_bind (Does.of_pure ⟨rfl, h⟩)

end Builder
end FlatTable

import FlatTable.Builder.Create
import FlatTable.Proofs.Builder.Steps

/-! Bytes that a builder holds at a distance from the end stay there when more are put in front.
Strings and vectors are laid out in such bytes. -/
namespace FlatTable
open Layout

namespace Builder
variable {b b' : Builder} {rev : Nat} {bytes bytes' front : List UInt8}

/-- The bytes start at distance `rev` from the end, and none of them is padding of the buffer. -/
structure Held (b : Builder) (rev : Nat) (bytes : List UInt8) : Prop where
  split : ∃ front back, b.used.bytes = front ++ (bytes ++ back) ∧ bytes.length + back.length = rev
  before : b.trailingPad + bytes.length ≤ rev

theorem Held.le (h : b.Held rev bytes) : rev ≤ b.used.bytes.length := by
  obtain ⟨front, back, used, rfl⟩ := h.split
  rw [used, List.length_append, List.length_append]
  exact Nat.le_add_left _ _

/-- `b'` has all that `b` has, and behind whatever is new. -/
structure Keeps (b b' : Builder) : Prop where
  used : ∃ front, b'.used.bytes = front ++ b.used.bytes
  trailingPad : b.used.bytes ≠ [] → b'.trailingPad = b.trailingPad
  minAlign : b.minAlign ≤ b'.minAlign

theorem Keeps.trans {b'' : Builder} (h : b.Keeps b') (h' : b'.Keeps b'') : b.Keeps b'' := by
  obtain ⟨front, used⟩ := h.used
  obtain ⟨front', used'⟩ := h'.used
  refine ⟨⟨front' ++ front, by rw [used', used, List.append_assoc]⟩, ?_,
    Nat.le_trans h.minAlign h'.minAlign⟩
  intro some
  have some' : b'.used.bytes ≠ [] := by
    rw [used]
    exact List.append_ne_nil_of_right_ne_nil _ some
  rw [h'.trailingPad some', h.trailingPad some]

theorem Grown.keeps (h : b.Grown b' front) : b.Keeps b' :=
  ⟨⟨front, h.used⟩, h.trailingPad, h.minAlign⟩

theorem keeps_placed (b : Builder) (placed : List Placed) : b.Keeps { b with placed } :=
  ⟨⟨[], rfl⟩, fun _ => rfl, Nat.le_refl _⟩

theorem keeps_force (b : Builder) (on : Bool) : b.Keeps { b with forceDefaults := on } :=
  ⟨⟨[], rfl⟩, fun _ => rfl, Nat.le_refl _⟩

/-- Bytes once written keep their distance from the end. -/
theorem Held.kept (h : b.Held rev bytes) (nonempty : 0 < bytes.length) (keeps : b.Keeps b') :
    b'.Held rev bytes := by
  have used : b.used.bytes ≠ [] := by
    have := h.le
    have := h.before
    exact List.ne_nil_of_length_pos (by omega)
  obtain ⟨front, grown⟩ := keeps.used
  obtain ⟨before, back, split, length⟩ := h.split
  refine ⟨⟨front ++ before, back, ?_, length⟩, by rw [keeps.trailingPad used]; exact h.before⟩
  rw [grown, split, List.append_assoc]

theorem Held.left (h : b.Held rev (bytes ++ bytes')) : b.Held rev bytes := by
  obtain ⟨front, back, split, length⟩ := h.split
  have before := h.before
  rw [List.length_append] at length before
  refine ⟨⟨front, bytes' ++ back, by rw [split, List.append_assoc], ?_⟩, by omega⟩
  rw [List.length_append]
  omega

theorem Held.right (h : b.Held rev (bytes ++ bytes')) : b.Held (rev - bytes.length) bytes' := by
  obtain ⟨front, back, split, length⟩ := h.split
  have before := h.before
  rw [List.length_append] at length before
  refine ⟨⟨front ++ bytes, back, by rw [split]; simp only [List.append_assoc], by omega⟩, by omega⟩

/-- The size of parts that are all of one width. -/
theorem length_flatMap {α : Type} {f : α → List UInt8} {width : Nat} {items : List α}
    (same : ∀ x ∈ items, (f x).length = width) :
    (items.flatMap f).length = items.length * width := by
  induction items with
  | nil => simp
  | cons x items ih =>
    rw [List.flatMap_cons, List.length_append, same x List.mem_cons_self,
      ih fun y member => same y (List.mem_cons_of_mem x member), List.length_cons, Nat.succ_mul,
      Nat.add_comm]

/-- Of parts that are all of one width, the one with number `i`. -/
theorem Held.item {α : Type} {f : α → List UInt8} {width : Nat} {items : List α}
    (h : b.Held rev (items.flatMap f)) (same : ∀ x ∈ items, (f x).length = width) {i : Nat} {x : α}
    (found : items[i]? = some x) : b.Held (rev - i * width) (f x) := by
  induction items generalizing rev i with
  | nil => simp at found
  | cons y items ih =>
    rw [List.flatMap_cons] at h
    cases i with
    | zero =>
      obtain rfl : y = x := by simpa using found
      rw [Nat.zero_mul, Nat.sub_zero]
      exact h.left
    | succ i =>
      have rest := ih h.right (fun x member => same x (List.mem_cons_of_mem y member))
        (by simpa using found)
      rw [same y List.mem_cons_self, Nat.sub_sub] at rest
      rwa [Nat.succ_mul, Nat.add_comm]

/-- At one distance only one list of so many bytes is held. -/
theorem Held.unique (h : b.Held rev bytes) (h' : b.Held rev bytes')
    (same : bytes.length = bytes'.length) : bytes = bytes' := by
  obtain ⟨front, back, split, length⟩ := h.split
  obtain ⟨front', back', split', length'⟩ := h'.split
  have total := congrArg List.length (split.symm.trans split')
  simp only [List.length_append] at total
  obtain ⟨_, rest⟩ := List.append_inj (split.symm.trans split') (by omega)
  exact (List.append_inj rest same).1

/-- The first bytes are held if they are not padding of the buffer. -/
theorem Held.of_append {back : List UInt8} (used : b.used.bytes = bytes ++ back)
    (before : b.trailingPad + bytes.length ≤ b.used.bytes.length) :
    b.Held b.used.bytes.length bytes :=
  ⟨⟨[], back, used, by rw [used, List.length_append]⟩, before⟩

theorem Stored.held {alignment : Nat} (h : b.Stored b' alignment bytes) (sound : b.Sound) :
    b'.Held b'.used.bytes.length bytes :=
  .of_append (by rw [h.grown.used, List.append_assoc]) (h.trailingPad sound)

/-- Where nothing has to be padded only the bytes themselves are put in front. -/
theorem Stored.exact {alignment : Nat} (h : b.Stored b' alignment bytes) (divides : alignment ∣ 8)
    (even : alignment ∣ b.used.bytes.length + bytes.length) :
    b.Grown b' bytes ∧ b'.trailingPad = b.trailingPad := by
  have grown := h.grown
  rw [padding_of_dvd divides even, List.replicate_zero, List.append_nil] at grown
  exact ⟨grown, h.samePad even⟩

structure Refers (b : Builder) (holder target : Nat) : Prop where
  positive : 0 < target
  behind : target + offsetSize ≤ holder
  aligned : offsetSize ∣ holder
  held : b.Held holder (Bytes.encode offsetSize (holder - target))

theorem Refers.kept {holder target : Nat} (h : b.Refers holder target) (keeps : b.Keeps b') :
    b'.Refers holder target :=
  ⟨h.positive, h.behind, h.aligned, h.held.kept (by rw [Bytes.length_encode]; decide) keeps⟩

def RefersEach (b : Builder) (rev : Nat) (targets : List Nat) : Prop :=
  ∀ i target, targets[i]? = some target → b.Refers (rev - i * offsetSize) target

theorem RefersEach.kept {targets : List Nat} (h : b.RefersEach rev targets)
    (keeps : b.Keeps b') : b'.RefersEach rev targets :=
  fun i target found => (h i target found).kept keeps

end Builder
end FlatTable

import FlatTable.Builder.Object

/-! Bisection finds what has been placed. What it finds is always right; that it finds everything rests on
the order in which objects are placed. -/
namespace FlatTable.Placed

/-- Each object was placed further from the end than those before it. The latest comes first. -/
def Ordered (placed : List Placed) : Prop := placed.Pairwise fun p q => q.rev < p.rev

private def SplitAt (created : Array Placed) (rev i : Nat) : Prop :=
  i < created.size ∧ ∀ (j : Nat) q, created[j]? = some q → (q.rev ≤ rev ↔ j ≤ i)

/-- Each round halves where the split can be. -/
private theorem lastWithin_of_split {created : Array Placed} {rev i : Nat} (split : SplitAt created rev i)
    {bits first : Nat} (atLeast : first ≤ i) (below : i < first + Nat.pow 2 bits) :
    lastWithin created rev bits first = i := by
  obtain ⟨inside, split⟩ := split
  induction bits generalizing first with
  | zero => exact Nat.le_antisymm atLeast (Nat.lt_succ_iff.mp below)
  | succ bits ih =>
    have halves : Nat.pow 2 (bits + 1) = Nat.pow 2 bits + Nat.pow 2 bits := Nat.mul_two _
    unfold lastWithin
    dsimp only
    cases there : created[first + Nat.pow 2 bits]? with
    | none =>
      have outside := Array.getElem?_eq_none_iff.mp there
      rw [Option.any_none, if_neg Bool.false_ne_true]
      exact ih atLeast (Nat.lt_of_lt_of_le inside outside)
    | some q =>
      have side := split _ q there
      rw [Option.any_some]
      by_cases within : q.rev ≤ rev
      · rw [if_pos (decide_eq_true within)]
        exact ih (side.mp within) (by rw [halves] at below; exact Nat.add_assoc .. ▸ below)
      · rw [if_neg (by rw [decide_eq_true_eq]; exact within)]
        exact ih atLeast (Nat.lt_of_not_le fun after => within (side.mpr after))

variable {placed : List Placed} {p q : Placed} {rev : Nat}

theorem mem_of_find? (found : find? placed rev = some q) : q ∈ placed ∧ q.rev = rev := by
  obtain ⟨there, same⟩ := Option.filter_eq_some_iff.mp found
  have member := Array.mem_of_getElem? there
  exact ⟨List.mem_reverse.mp (List.mem_toArray.mp member), by simpa using same⟩

/-- The order in which objects are placed splits them at each of them. -/
private theorem Ordered.splitAt (ordered : Ordered placed) {i : Nat}
    (at_i : placed.reverse.toArray[i]? = some q) : SplitAt placed.reverse.toArray q.rev i := by
  have rising : placed.reverse.Pairwise fun p q => p.rev < q.rev := List.pairwise_reverse.mpr ordered
  obtain ⟨inside, rfl⟩ := Array.getElem?_eq_some_iff.mp at_i
  refine ⟨inside, fun j r at_j => ?_⟩
  obtain ⟨inside', rfl⟩ := Array.getElem?_eq_some_iff.mp at_j
  simp only [List.getElem_toArray]
  rcases Nat.lt_trichotomy j i with before | rfl | after
  · have := List.pairwise_iff_getElem.mp rising j i inside' inside before
    omega
  · simp
  · have := List.pairwise_iff_getElem.mp rising i j inside inside' after
    omega

theorem find?_of_mem (ordered : Ordered placed) (member : q ∈ placed) :
    find? placed q.rev = some q := by
  have member : q ∈ placed.reverse.toArray := List.mem_toArray.mpr (List.mem_reverse.mpr member)
  obtain ⟨i, at_i⟩ := Array.mem_iff_getElem?.mp member
  have split := ordered.splitAt at_i
  have enough : i < 0 + Nat.pow 2 (placed.reverse.toArray.size.log2 + 1) := by
    rw [Nat.zero_add]
    exact Nat.lt_trans split.1 Nat.lt_log2_self
  unfold find?
  dsimp only
  rw [lastWithin_of_split split (Nat.zero_le i) enough, at_i]
  simp

theorem mem_of_isAmong (among : p.isAmong placed) : p ∈ placed := by
  obtain ⟨q, found, kind⟩ := (Option.any_eq_true _ _).mp among
  obtain ⟨member, rev⟩ := mem_of_find? found
  obtain rfl : q = p := by
    cases p
    cases q
    simp only [Placed.mk.injEq]
    exact ⟨rev, by simpa using kind⟩
  exact member

/-- Given the order, exactly what has been placed is found. -/
theorem isAmong_iff_mem (ordered : Ordered placed) : p.isAmong placed ↔ p ∈ placed := by
  refine ⟨mem_of_isAmong, fun member => ?_⟩
  rw [isAmong, find?_of_mem ordered member]
  simp

end FlatTable.Placed

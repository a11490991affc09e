import Mathlib.Data.List.Basic
import Mathlib.Data.List.Forall2
import FlatTable.Json.Document

/-! Objects as sorted maps, and JSON up to the equality of numbers. -/
namespace FlatTable.Json
open Ieee

mutual

/-- Are all objects sorted by name, with no name twice? -/
def Sorted : Json → Prop
  | array items => SortedItems items
  | object members => (members.map Prod.fst).Pairwise (· < ·) ∧ SortedMembers members
  | _ => True

def SortedItems : List Json → Prop
  | [] => True
  | j :: js => j.Sorted ∧ SortedItems js

def SortedMembers : List (String × Json) → Prop
  | [] => True
  | (_, j) :: members => j.Sorted ∧ SortedMembers members

end

mutual

instance decidableSorted : (j : Json) → Decidable j.Sorted
  | array items => decidableSortedItems items
  | object members =>
    let _ := decidableSortedMembers members
    inferInstanceAs (Decidable (_ ∧ SortedMembers members))
  | null | bool _ | integer _ | real _ | string _ => .isTrue trivial

instance decidableSortedItems : (items : List Json) → Decidable (SortedItems items)
  | [] => .isTrue trivial
  | j :: js =>
    let _ := decidableSorted j
    let _ := decidableSortedItems js
    inferInstanceAs (Decidable (j.Sorted ∧ SortedItems js))

instance decidableSortedMembers : (members : List (String × Json)) → Decidable (SortedMembers members)
  | [] => .isTrue trivial
  | (_, j) :: members =>
    let _ := decidableSorted j
    let _ := decidableSortedMembers members
    inferInstanceAs (Decidable (j.Sorted ∧ SortedMembers members))

end

mutual

/-- Equality, with floating-point numbers compared as numbers: both zeros are equal, and a NaN is not
equal to itself. -/
def same : Json → Json → Bool
  | null, null => true
  | bool a, bool b => a == b
  | integer a, integer b => a == b
  | real a, real b => Format.double.numEq a b
  | string a, string b => a == b
  | array items, array items' => sameItems items items'
  | object members, object members' => sameMembers members members'
  | _, _ => false

def sameItems : List Json → List Json → Bool
  | [], [] => true
  | j :: js, k :: ks => same j k && sameItems js ks
  | _, _ => false

def sameMembers : List (String × Json) → List (String × Json) → Bool
  | [], [] => true
  | (name, j) :: js, (name', k) :: ks => name == name' && same j k && sameMembers js ks
  | _, _ => false

end

theorem sortedItems_iff {items : List Json} : SortedItems items ↔ ∀ j ∈ items, j.Sorted := by
  induction items with
  | nil => simp [SortedItems]
  | cons j js ih => simp [SortedItems, ih]

theorem sortedMembers_iff {members : List (String × Json)} :
    SortedMembers members ↔ ∀ m ∈ members, m.2.Sorted := by
  induction members with
  | nil => simp [SortedMembers]
  | cons m members ih => simp [SortedMembers, ih]

theorem sameItems_iff {items items' : List Json} :
    sameItems items items' ↔ items.Forall₂ (fun j k => j.same k) items' := by
  induction items generalizing items' with
  | nil => cases items' <;> simp [sameItems]
  | cons j js ih => cases items' <;> simp [sameItems, ih]

def SameMember (m n : String × Json) : Prop := m.1 = n.1 ∧ m.2.same n.2

theorem sameMembers_iff {members members' : List (String × Json)} :
    sameMembers members members' ↔ members.Forall₂ SameMember members' := by
  induction members generalizing members' with
  | nil => cases members' <;> simp [sameMembers]
  | cons m members ih => cases members' <;> simp [sameMembers, ih, SameMember, and_assoc]

/-! ### Sorting -/

private def before (m n : String × Json) : Bool := !decide (n.1 < m.1)

private theorem before_iff {m n : String × Json} : before m n ↔ m.1 ≤ n.1 := by
  rw [before, Bool.not_eq_true', decide_eq_false_iff_not, String.not_lt]

private theorem sorted_mergeSort (members : List (String × Json)) :
    (members.mergeSort before).Pairwise fun m n => m.1 ≤ n.1 := by
  refine (List.pairwise_mergeSort ?_ ?_ members).imp before_iff.mp
  · intro l m n first second
    exact before_iff.mpr (String.le_trans (before_iff.mp first) (before_iff.mp second))
  · intro m n
    rw [Bool.or_eq_true, before_iff, before_iff]
    exact String.le_total _ _

private theorem keepLast_subset (members : List (String × Json)) :
    (keepLast members).Sublist members := by
  fun_induction keepLast members with
  | case1 => exact .refl _
  | case2 => exact .refl _
  | case3 m n rest same ih => exact ih.cons _
  | case4 m n rest other ih => exact ih.cons_cons _

private theorem keepLast_sorted {members : List (String × Json)}
    (sorted : members.Pairwise fun m n => m.1 ≤ n.1) :
    (keepLast members).Pairwise fun m n => m.1 < n.1 := by
  fun_induction keepLast members with
  | case1 => exact .nil
  | case2 => exact List.pairwise_singleton _ _
  | case3 m n rest same ih => exact ih (List.pairwise_cons.mp sorted).2
  | case4 m n rest other ih =>
    obtain ⟨least, tail⟩ := List.pairwise_cons.mp sorted
    refine List.pairwise_cons.mpr ⟨fun k member => ?_, ih tail⟩
    have first : m.1 < n.1 := by
      rw [← String.not_le]
      exact fun back => other (String.le_antisymm (least n List.mem_cons_self) back)
    rcases List.mem_cons.mp ((keepLast_subset _).subset member) with rfl | later
    · exact first
    · rw [← String.not_le]
      exact fun back => String.not_le.mpr first
        (String.le_trans ((List.pairwise_cons.mp tail).1 k later) back)

/-- An object's members are some of those given, sorted by name. -/
theorem exists_ofMembers (members : List (String × Json)) :
    ∃ kept, ofMembers members = object kept ∧ kept ⊆ members ∧
      (kept.map Prod.fst).Pairwise (· < ·) := by
  refine ⟨keepLast (members.mergeSort before), rfl, fun m member => ?_,
    List.pairwise_map.mpr (keepLast_sorted (sorted_mergeSort members))⟩
  exact (List.mergeSort_perm members before).mem_iff.mp ((keepLast_subset _).subset member)

theorem sorted_ofMembers {members : List (String × Json)} (sorted : ∀ m ∈ members, m.2.Sorted) :
    (ofMembers members).Sorted := by
  obtain ⟨kept, object, sub, inOrder⟩ := exists_ofMembers members
  rw [object]
  exact ⟨inOrder, sortedMembers_iff.mpr fun m member => sorted m (sub member)⟩

mutual

/-- The value of a document is sorted. -/
theorem sorted_of_toJson? {d : Document} {json : Json} (h : d.toJson? = some json) :
    json.Sorted := by
  match d with
  | .null | .bool _ =>
    cases h
    trivial
  | .number n =>
    have read : n.value? = some json := h
    unfold Numeral.value? at read
    dsimp only at read
    split at read
    · cases read
      trivial
    · split at read
      · cases read
        trivial
      · obtain ⟨bits, _, rfl⟩ := Option.map_eq_some_iff.mp read
        trivial
  | .string s =>
    obtain ⟨text, _, rfl⟩ := Option.map_eq_some_iff.mp h
    trivial
  | .array items =>
    obtain ⟨values, read, rfl⟩ := Option.map_eq_some_iff.mp h
    exact sortedItems_iff.mpr (sorted_of_itemsToJson? read)
  | .object members =>
    obtain ⟨values, read, rfl⟩ := Option.map_eq_some_iff.mp h
    exact sorted_ofMembers (sorted_of_membersToJson? read)

private theorem sorted_of_itemsToJson? {items : List Document} {values : List Json}
    (h : Document.itemsToJson? items = some values) : ∀ j ∈ values, j.Sorted := by
  match items with
  | [] =>
    cases h
    simp
  | d :: ds =>
    simp only [Document.itemsToJson?, Option.bind_eq_bind, Option.bind_eq_some_iff] at h
    obtain ⟨j, first, js, rest, same⟩ := h
    cases same
    exact List.forall_mem_cons.mpr ⟨sorted_of_toJson? first, sorted_of_itemsToJson? rest⟩

private theorem sorted_of_membersToJson? {members : List (Option String × Document)}
    {values : List (String × Json)} (h : Document.membersToJson? members = some values) :
    ∀ m ∈ values, m.2.Sorted := by
  match members with
  | [] =>
    cases h
    simp
  | (name, d) :: ds =>
    simp only [Document.membersToJson?, Option.bind_eq_bind, Option.bind_eq_some_iff] at h
    obtain ⟨_, _, j, first, js, rest, same⟩ := h
    cases same
    exact List.forall_mem_cons.mpr ⟨sorted_of_toJson? first, sorted_of_membersToJson? rest⟩

end

/-- Whatever is read from a text is sorted. -/
theorem sorted_of_ofText? {text : String} {json : Json} (h : ofText? text = some json) :
    json.Sorted := by
  simp only [ofText?, Option.bind_eq_bind, Option.bind_eq_some_iff] at h
  obtain ⟨d, _, read⟩ := h
  split at read
  · exact sorted_of_toJson? read
  · cases read

/-! ### Objects that are the same -/

private theorem same_keepLast {pairs : List ((String × Json) × (String × Json))}
    (same : ∀ p ∈ pairs, SameMember p.1 p.2) :
    (keepLast (pairs.map Prod.fst)).Forall₂ SameMember (keepLast (pairs.map Prod.snd)) := by
  induction pairs with
  | nil => exact .nil
  | cons p pairs ih =>
    obtain ⟨first, rest⟩ := List.forall_mem_cons.mp same
    cases pairs with
    | nil => exact .cons first .nil
    | cons q pairs =>
      have second := same q (by simp)
      simp only [List.map_cons, keepLast] at ih ⊢
      rw [← first.1, ← second.1]
      split
      · exact ih rest
      · exact .cons first (ih rest)

/-- Members are sorted by their names alone. -/
theorem same_ofMembers {members members' : List (String × Json)}
    (same : members.Forall₂ SameMember members') : (ofMembers members).same (ofMembers members') := by
  obtain ⟨length, pairs⟩ := List.forall₂_iff_zip.mp same
  have left : members = (members.zip members').map Prod.fst :=
    (List.map_fst_zip (Nat.le_of_eq length)).symm
  have right : members' = (members.zip members').map Prod.snd :=
    (List.map_snd_zip (Nat.le_of_eq length.symm)).symm
  generalize members.zip members' = z at *
  subst left right
  rw [ofMembers, ofMembers, Json.same, sameMembers_iff,
    ← List.map_mergeSort (r := fun p q => before p.1 q.1) fun p _ q _ => rfl,
    ← List.map_mergeSort (r := fun p q => before p.1 q.1) fun p inList q inList' => ?_]
  · exact same_keepLast fun p member => pairs ((List.mergeSort_perm _ _).mem_iff.mp member)
  · rw [before, (pairs inList).1, (pairs inList').1]

end FlatTable.Json

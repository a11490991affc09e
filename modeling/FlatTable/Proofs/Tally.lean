import Mathlib.Algebra.Ring.Nat
import Mathlib.Data.List.Perm.Basic

/-! Ways to put the numbers of the parts of a whole together, such as their sum and their maximum. -/
namespace FlatTable

structure Tally where
  join : Nat → Nat → Nat
  zero_join : ∀ n, join 0 n = n
  comm : ∀ m n, join m n = join n m
  assoc : ∀ l m n, join (join l m) n = join l (join m n)
  le_join : ∀ m n, n ≤ join m n
  mono : ∀ {m m' n n'}, m ≤ m' → n ≤ n' → join m n ≤ join m' n'

namespace Tally

def sum : Tally where
  join := (· + ·)
  zero_join := Nat.zero_add
  comm := Nat.add_comm
  assoc := Nat.add_assoc
  le_join m n := Nat.le_add_left n m
  mono := Nat.add_le_add

def max : Tally where
  join := Nat.max
  zero_join := Nat.zero_max
  comm := Nat.max_comm
  assoc := Nat.max_assoc
  le_join := Nat.le_max_right
  mono := by
    intro m m' n n' hm hn
    exact Nat.max_le.mpr ⟨Nat.le_trans hm (Nat.le_max_left m' n'),
      Nat.le_trans hn (Nat.le_max_right m' n')⟩

variable (c : Tally)

def all (l : List Nat) : Nat := l.foldr c.join 0

@[simp] theorem all_nil : c.all [] = 0 := rfl

@[simp] theorem all_cons (n : Nat) (l : List Nat) : c.all (n :: l) = c.join n (c.all l) := rfl

theorem all_append (l l' : List Nat) : c.all (l ++ l') = c.join (c.all l) (c.all l') := by
  induction l with
  | nil => rw [List.nil_append, all_nil, c.zero_join]
  | cons n l ih => rw [List.cons_append, all_cons, ih, all_cons, c.assoc]

theorem all_flatMap {α : Type} (l : List α) (f : α → List Nat) :
    c.all (l.flatMap f) = c.all (l.map fun x => c.all (f x)) := by
  induction l with
  | nil => rfl
  | cons x l ih => rw [List.flatMap_cons, all_append, ih, List.map_cons, all_cons]

theorem all_perm {l l' : List Nat} (h : l.Perm l') : c.all l = c.all l' := by
  induction h with
  | nil => rfl
  | cons n _ ih => rw [all_cons, all_cons, ih]
  | swap m n l => rw [all_cons, all_cons, all_cons, all_cons, ← c.assoc, c.comm n m, c.assoc]
  | trans _ _ first second => rw [first, second]

theorem all_map_le {α : Type} {l : List α} {g g' : α → Nat} (h : ∀ x ∈ l, g x ≤ g' x) :
    c.all (l.map g) ≤ c.all (l.map g') := by
  induction l with
  | nil => exact Nat.le_refl _
  | cons x l ih => exact c.mono (h x (by simp)) (ih fun y hy => h y (by simp [hy]))

/-- Parts that are left out do not add. -/
theorem all_filterMap_le {α β : Type} {l : List α} {f : α → Option β} {g : β → Nat} {g' : α → Nat}
    (h : ∀ x ∈ l, ∀ y, f x = some y → g y ≤ g' x) :
    c.all ((l.filterMap f).map g) ≤ c.all (l.map g') := by
  induction l with
  | nil => exact Nat.le_refl _
  | cons x l ih =>
    have rest := ih fun y hy => h y (by simp [hy])
    cases found : f x with
    | none =>
      rw [List.filterMap_cons_none found]
      exact Nat.le_trans rest (c.le_join _ _)
    | some y =>
      rw [List.filterMap_cons_some found]
      exact c.mono (h x (by simp) y found) rest

/-- Parts that are left out do not count. -/
theorem all_le_filterMap {α β : Type} {l : List α} {f : α → Option β} {g : β → Nat} {g' : α → Nat}
    (h : ∀ x ∈ l, g' x ≤ ((f x).map g).getD 0) :
    c.all (l.map g') ≤ c.all ((l.filterMap f).map g) := by
  induction l with
  | nil => exact Nat.le_refl _
  | cons x l ih =>
    have first := h x (by simp)
    have rest := ih fun y hy => h y (by simp [hy])
    cases found : f x with
    | none =>
      rw [found] at first
      obtain zero : g' x = 0 := Nat.le_zero.mp first
      rw [List.map_cons, all_cons, zero, c.zero_join, List.filterMap_cons_none found]
      exact rest
    | some y =>
      rw [found] at first
      rw [List.filterMap_cons_some found]
      exact c.mono first rest

theorem max_all_le_iff {l : List Nat} {bound : Nat} : max.all l ≤ bound ↔ ∀ n ∈ l, n ≤ bound := by
  induction l with
  | nil => simp
  | cons n l ih => rw [all_cons, List.forall_mem_cons, ← ih]; exact Nat.max_le

end Tally
end FlatTable

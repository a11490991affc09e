import Mathlib.Algebra.Ring.Nat
import Mathlib.Data.List.Forall2

/-! When a chain of checks succeeds. -/
namespace FlatTable

section
variable {ε α β : Type} {r : β}

theorem ok_bind (a : α) (f : α → Except ε β) : (Except.ok a >>= f) = f a := rfl

/-- Both steps succeed. -/
theorem bind_eq_ok_iff {x : Except ε α} {f : α → Except ε β} :
    (x >>= f) = .ok r ↔ ∃ a, x = .ok a ∧ f a = .ok r := by
  cases x with
  | error e =>
    constructor
    · intro h
      cases h
    · intro given
      obtain ⟨_, h, _⟩ := given
      cases h
  | ok a => simp [ok_bind]

/-- What comes behind a step only matters for what the step can return. -/
theorem bind_congr_of_ok {x : Except ε α} {f g : α → Except ε β}
    (same : ∀ a, x = .ok a → f a = g a) : (x >>= f) = (x >>= g) := by
  cases x with
  | error e => rfl
  | ok a => exact same a rfl

theorem foldlM_congr_of_mem {l : List α} {f g : β → α → Except ε β}
    (same : ∀ x ∈ l, ∀ b, f b x = g b x) (b : β) : l.foldlM f b = l.foldlM g b := by
  induction l generalizing b with
  | nil => rfl
  | cons x l ih =>
    rw [List.foldlM_cons, List.foldlM_cons, same x List.mem_cons_self b]
    exact bind_congr_of_ok fun b' _ => ih (fun y member => same y (List.mem_cons_of_mem _ member)) b'

theorem toOption_eq_some_iff {x : Except ε β} : x.toOption = some r ↔ x = .ok r := by
  cases x <;> simp [Except.toOption]

theorem exists_unit_iff {P : Unit → Prop} : (∃ u, P u) ↔ P () :=
  ⟨fun ⟨_, h⟩ => h, fun h => ⟨_, h⟩⟩

/-- A check in front of further steps. -/
theorem check_eq_ok_iff {x : Except ε Unit} {f : Unit → Except ε β} :
    (x >>= f) = .ok r ↔ x = .ok () ∧ f () = .ok r := by
  rw [bind_eq_ok_iff, exists_unit_iff]

theorem throw_else_eq_ok_iff {p : Prop} [Decidable p] {e : ε} {x : Except ε β} :
    (if p then .error e else x) = .ok r ↔ ¬ p ∧ x = .ok r := by
  split <;> simp_all

/-- A refusal in front of further steps. -/
theorem refuse_eq_ok_iff {p : Prop} [Decidable p] {e : ε} {f : α → Except ε β} {x : Except ε β} :
    (if p then throw e >>= f else x) = .ok r ↔ ¬ p ∧ x = .ok r := throw_else_eq_ok_iff

theorem refuse_congr {p : Prop} [Decidable p] {e : ε} {f g : α → Except ε β} {x y : Except ε β}
    (same : ¬ p → x = y) :
    (if p then throw e >>= f else x) = if p then throw e >>= g else y := by
  split
  · rfl
  · exact same (by assumption)

/-- A loop of checks succeeds if each of them does. -/
theorem forM_eq_ok_iff {l : List α} {f : α → Except ε PUnit} :
    l.forM f = .ok () ↔ ∀ x ∈ l, f x = .ok () := by
  induction l with
  | nil => simp [pure, Except.pure]
  | cons x l ih =>
    change (f x >>= fun _ => l.forM f) = .ok () ↔ _
    rw [check_eq_ok_iff, ih, List.forall_mem_cons]

/-- A loop of readers succeeds if each of them does. -/
theorem mapM_eq_ok_iff {l : List α} {f : α → Except ε β} {l' : List β} :
    l.mapM f = .ok l' ↔ l.Forall₂ (fun a b => f a = .ok b) l' := by
  induction l generalizing l' with
  | nil =>
    rw [List.mapM_nil, List.forall₂_nil_left_iff]
    exact ⟨fun h => (Except.ok.inj h).symm, fun h => congrArg Except.ok h.symm⟩
  | cons a l ih =>
    rw [List.mapM_cons, bind_eq_ok_iff, List.forall₂_cons_left_iff]
    simp only [bind_eq_ok_iff, ih]
    constructor
    · intro given
      obtain ⟨b, first, rest, others, result⟩ := given
      cases result
      exact ⟨b, rest, first, others, rfl⟩
    · intro given
      obtain ⟨b, rest, first, others, rfl⟩ := given
      exact ⟨b, first, rest, others, rfl⟩

/-- A loop of readers fails as one of them does. -/
theorem exists_of_mapM_eq_error {l : List α} {f : α → Except ε β} {e : ε} (h : l.mapM f = .error e) :
    ∃ a ∈ l, f a = .error e := by
  induction l with
  | nil => cases h
  | cons a l ih =>
    rw [List.mapM_cons] at h
    cases first : f a with
    | error e' =>
      rw [first] at h
      cases h
      exact ⟨a, List.mem_cons_self, first⟩
    | ok b =>
      rw [first, ok_bind] at h
      cases rest : l.mapM f with
      | error e' =>
        rw [rest] at h
        cases h
        obtain ⟨a', member, failed⟩ := ih rest
        exact ⟨a', List.mem_cons_of_mem _ member, failed⟩
      | ok bs =>
        rw [rest] at h
        cases h

theorem mapM_eq_some_iff {l : List α} {f : α → Option β} {l' : List β} :
    l.mapM f = some l' ↔ l.Forall₂ (fun a b => f a = some b) l' := by
  induction l generalizing l' with
  | nil =>
    rw [List.mapM_nil, List.forall₂_nil_left_iff]
    exact ⟨fun h => (Option.some.inj h).symm, fun h => congrArg some h.symm⟩
  | cons a l ih =>
    rw [List.mapM_cons, List.forall₂_cons_left_iff]
    simp only [Option.bind_eq_bind, Option.bind_eq_some_iff, ih]
    constructor
    · intro given
      obtain ⟨b, first, rest, others, result⟩ := given
      cases result
      exact ⟨b, rest, first, others, rfl⟩
    · intro given
      obtain ⟨b, rest, first, others, rfl⟩ := given
      exact ⟨b, first, rest, others, rfl⟩

theorem mapM_map_right {γ : Type} {f : α → Option β} {g : β → γ} (l : List α) :
    (l.mapM fun a => (f a).map g) = (l.mapM f).map (List.map g) := by
  induction l with
  | nil => rfl
  | cons a l ih =>
    rw [List.mapM_cons, List.mapM_cons, ih]
    cases f a with
    | none => rfl
    | some b => cases l.mapM f <;> rfl

/-- What is on the right has something on the left. -/
theorem exists_of_mem_right {R : α → β → Prop} {l : List α} {l' : List β} (related : l.Forall₂ R l')
    {b : β} (member : b ∈ l') : ∃ a ∈ l, R a b := by
  induction related with
  | nil => cases member
  | @cons a _ _ _ first _ ih =>
    rcases List.mem_cons.mp member with rfl | later
    · exact ⟨a, List.mem_cons_self, first⟩
    · obtain ⟨a', inList, holds⟩ := ih later
      exact ⟨a', List.mem_cons_of_mem _ inList, holds⟩

end

theorem sum_map_flatMap {α β : Type} (l : List α) (f : α → List β) (g : β → Nat) :
    ((l.flatMap f).map g).sum = (l.map fun x => ((f x).map g).sum).sum := by
  induction l with
  | nil => rfl
  | cons x l ih => rw [List.flatMap_cons, List.map_append, List.sum_append, ih, List.map_cons, List.sum_cons]

/-- A check that counts on from the number given: it succeeds if `P` holds and the number stays within
`most`, and it counts `met`. -/
def Counts {ε : Type} (most : Nat) (check : Nat → Except ε Nat) (P : Prop) (met : Nat) : Prop :=
  ∀ count ≤ most, ∀ n, check count = .ok n ↔ P ∧ n = count + met ∧ n ≤ most

namespace Counts
variable {ε α : Type} {most met : Nat} {check : Nat → Except ε Nat} {P P' : Prop}

theorem congr (h : Counts most check P met) (same : P ↔ P') : Counts most check P' met :=
  fun count le n => by rw [h count le n, same]

/-- A check that counts nothing. -/
theorem pass : Counts most (fun count => (return count : Except ε Nat)) True 0 := by
  intro count le n
  constructor
  · intro h
    cases h
    exact ⟨trivial, rfl, le⟩
  · intro given
    obtain ⟨_, rfl, _⟩ := given
    rfl

/-- A step that does not count in front of one that does. -/
theorem after {x : Except ε α} {f : α → Nat → Except ε Nat} {R S : α → Prop}
    (first : ∀ a, x = .ok a ↔ R a) (next : ∀ a, R a → Counts most (f a) (S a) met) :
    Counts most (fun count => do f (← x) count) (∃ a, R a ∧ S a) met := by
  intro count le n
  rw [bind_eq_ok_iff]
  constructor
  · intro given
    obtain ⟨a, ok, h⟩ := given
    obtain ⟨holds, rest⟩ := (next a ((first a).mp ok) count le n).mp h
    exact ⟨⟨a, (first a).mp ok, holds⟩, rest⟩
  · intro given
    obtain ⟨⟨a, ok, holds⟩, rest⟩ := given
    exact ⟨a, (first a).mpr ok, (next a ok count le n).mpr ⟨holds, rest⟩⟩

/-- Checks one after the other count what each of them counts. -/
theorem foldlM {l : List α} {f : α → Nat → Except ε Nat} {P : α → Prop} {met : α → Nat}
    (each : ∀ x ∈ l, Counts most (f x) (P x) (met x)) :
    Counts most (fun count => l.foldlM (fun count x => f x count) count) (∀ x ∈ l, P x)
      (l.map met).sum := by
  induction l with
  | nil => exact pass.congr (by simp)
  | cons x l ih =>
    intro count le n
    change (f x count >>= l.foldlM fun count x => f x count) = .ok n ↔ _
    rw [bind_eq_ok_iff, List.forall_mem_cons, List.map_cons, List.sum_cons]
    have rest := ih fun y member => each y (List.mem_cons_of_mem _ member)
    constructor
    · intro given
      obtain ⟨next, first, h⟩ := given
      obtain ⟨holds, rfl, fits⟩ := (each x List.mem_cons_self count le next).mp first
      obtain ⟨all, rfl, most⟩ := (rest _ fits n).mp h
      exact ⟨⟨holds, all⟩, by omega, most⟩
    · intro given
      obtain ⟨⟨holds, all⟩, rfl, fits⟩ := given
      exact ⟨count + met x,
        (each x List.mem_cons_self count le _).mpr ⟨holds, rfl, by omega⟩,
        (rest _ (by omega) _).mpr ⟨all, by omega, fits⟩⟩

end Counts
end FlatTable

import FlatTable.Proofs.Scalar.Exact
import FlatTable.Proofs.Schema.Described
import FlatTable.Proofs.Schema.Valid

/-! The numbers of enumerators: those without one of their own are counted up, and what does not fit the
type of the enum is refused. -/
namespace FlatTable

namespace Description.Enum
variable {after : Int → Int} {start i : Int} {v : Enumerator} {given : List Enumerator} {numbers : List Int}

/-- An enumerator with a number of its own has this one. Of the others the first enumerator has `start`,
and each that stands behind a number has the one that comes `after` it. -/
structure Numbers (after : Int → Int) (start : Int) (given : List Enumerator) (numbers : List Int) :
    Prop where
  length : numbers.length = given.length
  own : ∀ (k : Nat) v i, given[k]? = some v → v.value = some i → numbers[k]? = some i
  first : ∀ v, given[0]? = some v → v.value = none → numbers[0]? = some start
  next : ∀ (k : Nat) v i, given[k + 1]? = some v → v.value = none → numbers[k]? = some i →
    numbers[k + 1]? = some (after i)

abbrev CountsUp (given : List Enumerator) (numbers : List Int) : Prop :=
  Numbers (fun i => i + 1) 0 given numbers

/-- The next number that is a `long`. Behind the greatest it is this one again. -/
def nextLong (i : Int) : Int := min (i + 1) (2 ^ 63 - 1)

def numbersFrom (after : Int → Int) (start : Int) : List Enumerator → List Int
  | [] => []
  | v :: vs => v.value.getD start :: numbersFrom after (after (v.value.getD start)) vs

theorem numbers_cons_iff : Numbers after start (v :: given) numbers ↔
    ∃ rest, numbers = v.value.getD start :: rest ∧ Numbers after (after (v.value.getD start)) given rest := by
  constructor
  · rintro ⟨length, own, first, next⟩
    cases numbers with
    | nil => cases length
    | cons i rest =>
      have head : i = v.value.getD start := by
        cases value : v.value with
        | none => exact Option.some.inj (first v rfl value)
        | some j => exact Option.some.inj (own 0 v j rfl value)
      subst head
      exact ⟨rest, rfl, Nat.succ.inj length, fun k => own (k + 1), fun v' here none => next 0 v' _ here none rfl,
        fun k => next (k + 1)⟩
  · rintro ⟨rest, rfl, length, own, first, next⟩
    refine ⟨congrArg Nat.succ length, fun k v' i here value => ?_, fun v' here none => ?_,
      fun k v' i here none before => ?_⟩
    · cases k with
      | zero =>
        obtain rfl := Option.some.inj here
        simp [value]
      | succ k => exact own k v' i here value
    · obtain rfl := Option.some.inj here
      simp [none]
    · cases k with
      | zero =>
        obtain rfl := Option.some.inj before
        exact first v' here none
      | succ k => exact next k v' i here none before

/-- There is one way to number enumerators. -/
theorem numbers_iff : Numbers after start given numbers ↔ numbers = numbersFrom after start given := by
  induction given generalizing start numbers with
  | nil =>
    constructor
    · exact fun h => List.eq_nil_of_length_eq_zero h.length
    · rintro rfl
      exact ⟨rfl, by simp, by simp, by simp⟩
  | cons v given ih =>
    rw [numbers_cons_iff, numbersFrom]
    constructor
    · rintro ⟨rest, rfl, counted⟩
      rw [ih.mp counted]
    · rintro rfl
      exact ⟨_, rfl, ih.mpr rfl⟩

/-! ### Counting beyond the greatest `long` -/

/-- Counting up gives an enumerator without a number of its own one that is no `long`. -/
def Overruns (start : Int) (given : List Enumerator) : Prop :=
  ∃ (k : Nat) (v : Enumerator) (i : Int), given[k]? = some v ∧ v.value = none ∧
    (numbersFrom (fun i => i + 1) start given)[k]? = some i ∧ 2 ^ 63 ≤ i

theorem overruns_cons_iff : Overruns start (v :: given) ↔
    (v.value = none ∧ 2 ^ 63 ≤ start) ∨ Overruns (v.value.getD start + 1) given := by
  constructor
  · rintro ⟨k, v', i, here, none, number, beyond⟩
    cases k with
    | zero =>
      obtain rfl := Option.some.inj here
      obtain rfl := Option.some.inj number
      rw [none] at beyond
      exact .inl ⟨none, beyond⟩
    | succ k => exact .inr ⟨k, v', i, here, none, number, beyond⟩
  · rintro (⟨none, beyond⟩ | ⟨k, v', i, here, none, number, beyond⟩)
    · exact ⟨0, v, start, rfl, none, by simp [numbersFrom, none], beyond⟩
    · exact ⟨k + 1, v', i, here, none, number, beyond⟩

theorem nextLong_min (i : Int) : nextLong (min i (2 ^ 63 - 1)) = min (i + 1) (2 ^ 63 - 1) := by
  rw [nextLong]
  omega

/-- Without leaving the range of `long` the numbers count up. -/
theorem numbersFrom_nextLong_eq_iff :
    numbersFrom nextLong (min start (2 ^ 63 - 1)) given = numbersFrom (fun i => i + 1) start given ↔
      ¬ Overruns start given := by
  induction given generalizing start with
  | nil =>
    refine iff_of_true rfl ?_
    rintro ⟨k, v, i, here, _⟩
    simp at here
  | cons v given ih =>
    rw [overruns_cons_iff, numbersFrom, numbersFrom, List.cons.injEq]
    cases value : v.value with
    | some i =>
      simp only [Option.getD_some, nextLong, reduceCtorEq, false_and, false_or, true_and]
      exact ih
    | none =>
      simp only [Option.getD_none, true_and, not_or, Int.not_le]
      have head : min start (2 ^ 63 - 1) = start ↔ start < 2 ^ 63 := by omega
      rw [head]
      rw [nextLong_min]
      exact and_congr_right fun _ => ih

/-- If counting up leaves the range of `long`, its greatest number is used. -/
theorem greatest_mem_numbersFrom (overruns : Overruns start given) :
    2 ^ 63 - 1 ∈ numbersFrom nextLong (min start (2 ^ 63 - 1)) given := by
  induction given generalizing start with
  | nil =>
    obtain ⟨k, v, i, here, _⟩ := overruns
    simp at here
  | cons v given ih =>
    rw [numbersFrom, List.mem_cons]
    rcases overruns_cons_iff.mp overruns with ⟨none, beyond⟩ | later
    · left
      rw [none, Option.getD_none]
      omega
    · cases value : v.value with
      | some i =>
        rw [value] at later
        exact .inr (ih later)
      | none =>
        rw [value, Option.getD_none] at later
        by_cases beyond : 2 ^ 63 ≤ start
        · left
          rw [Option.getD_none]
          omega
        · right
          rw [Option.getD_none, nextLong_min]
          exact ih later

/-! ### What is resolved -/

theorem underlying_resolveValues (r : EnumDef) (next : Int) (given : List Enumerator) :
    (resolveValues r next given).name = r.name ∧
      (resolveValues r next given).underlying = r.underlying := by
  induction given generalizing r next with
  | nil => exact ⟨rfl, rfl⟩
  | cons v given ih => exact ih _ _

theorem values_resolveValues (r : EnumDef) (next : Int) (given : List Enumerator) :
    (resolveValues r next given).values.map FlatTable.Enumerator.name =
        r.values.map FlatTable.Enumerator.name ++ given.map (fun v => Text.stripScope v.name) ∧
      (resolveValues r next given).values.map FlatTable.Enumerator.value =
        r.values.map FlatTable.Enumerator.value ++ numbersFrom nextLong next given := by
  induction given generalizing r next with
  | nil => simp [resolveValues, numbersFrom]
  | cons v given ih =>
    obtain ⟨names, numbers⟩ := ih (r.withValue v.name (v.value.getD next))
      (min (v.value.getD next + 1) (Nat.pow 2 63 - 1))
    rw [resolveValues, names, numbers]
    constructor
    · simp [EnumDef.withValue]
    · simp [EnumDef.withValue, numbersFrom, nextLong]

theorem resolve_eq_ok_iff {e : Enum} {r : EnumDef} : e.resolve = .ok r ↔
    ∃ t, ScalarType.ofName? e.underlying = some t ∧ t.isInteger ∧
      r = resolveValues ⟨e.name, t, []⟩ 0 e.values := by
  unfold resolve
  cases known : ScalarType.ofName? e.underlying with
  | none => simp
  | some t =>
    rw [Option.filter_some]
    by_cases integer : t.isInteger
    · rw [if_pos integer]
      constructor
      · intro same
        exact ⟨t, rfl, integer, (Except.ok.inj same).symm⟩
      · rintro ⟨_, ⟨⟩, _, rfl⟩
        rfl
    · rw [if_neg integer]
      refine iff_of_false (fun same => nomatch same) ?_
      rintro ⟨_, ⟨⟩, isInteger, _⟩
      exact integer isInteger

/-- The enumerators of a schema have the numbers that their description gives them. They count up exactly if
this does not lead beyond the greatest `long`, which stands for all that come behind it. -/
structure Resolved (e : Enum) (r : EnumDef) : Prop where
  name : r.name = e.name
  type : ScalarType.ofName? e.underlying = some r.underlying
  names : r.values.map FlatTable.Enumerator.name = e.values.map fun v => Text.stripScope v.name
  numbers : Numbers nextLong 0 e.values (r.values.map FlatTable.Enumerator.value)
  fits : ∀ v ∈ r.values, r.underlying.Has v.value
  counted : CountsUp e.values (r.values.map FlatTable.Enumerator.value) ↔ ¬ Overruns 0 e.values
  wide : Overruns 0 e.values → r.underlying = .long ∨ r.underlying = .ulong

theorem resolved_of_resolve {e : Enum} {r : EnumDef} (resolve : e.resolve = .ok r) (valid : r.Valid) :
    e.Resolved r := by
  obtain ⟨t, type, integer, rfl⟩ := resolve_eq_ok_iff.mp resolve
  obtain ⟨name, underlying⟩ := underlying_resolveValues ⟨e.name, t, []⟩ 0 e.values
  obtain ⟨names, numbers⟩ := values_resolveValues ⟨e.name, t, []⟩ 0 e.values
  rw [List.map_nil, List.nil_append] at names numbers
  have integral : t.format? = none := by cases t <;> first | rfl | cases integer
  have fits (v : FlatTable.Enumerator) (member : v ∈ (resolveValues ⟨e.name, t, []⟩ 0 e.values).values) :
      t.Has v.value := by
    have fits := valid.fits v member
    rw [underlying] at fits
    exact (ScalarType.exactly_ofLong? integral v.value).1.mp fits
  have zero : min (0 : Int) (2 ^ 63 - 1) = 0 := by decide
  refine ⟨name, underlying ▸ type, names, numbers_iff.mpr numbers, underlying.symm ▸ fits, ?_, ?_⟩
  · rw [CountsUp, numbers_iff, numbers]
    exact zero ▸ numbersFrom_nextLong_eq_iff
  · intro overruns
    have greatest : (2 ^ 63 - 1 : Int) ∈
        (resolveValues ⟨e.name, t, []⟩ 0 e.values).values.map FlatTable.Enumerator.value :=
      numbers ▸ zero ▸ greatest_mem_numbersFrom overruns
    obtain ⟨v, member, same⟩ := List.mem_map.mp greatest
    have has := fits v member
    rw [same] at has
    rw [underlying]
    cases t <;> simp [ScalarType.Has] at has ⊢

end Description.Enum

def Description.ofEnum (underlying : String) (values : List Description.Enumerator) : Description :=
  ⟨"", [], [⟨"Level", underlying, values⟩], [], [], none⟩

namespace Schema
open Description.Enum
variable {d : Description} {s : Schema}

/-- The enums of an accepted description have been resolved. -/
theorem resolved_of_ofDescription (accepted : ofDescription d = .ok s) :
    d.enums.Forall₂ Description.Enum.Resolved s.enums.toList := by
  obtain ⟨enums, _, _, resolved, _, _, _, rfl, validated⟩ := ofDescription_eq_ok_iff.mp accepted
  have valid := valid_of_validate validated
  have both := (List.forall₂_and_left enums d.enums).mpr
    ⟨valid.enums, (mapM_eq_ok_iff.mp resolved).flip⟩
  exact both.flip.imp fun e r given => resolved_of_resolve given.2 given.1

/-- The enums of an accepted description are numbered as it says. One that counts up to a number that its
type does not have is refused, but where enumerators without a number of their own come behind the greatest
`long`. -/
theorem enums_of_ofDescription (d : Description) :
    (∀ s, ofDescription d = .ok s → d.enums.Forall₂ Description.Enum.Resolved s.enums.toList) ∧
    ∀ e ∈ d.enums, ∀ t, ScalarType.ofName? e.underlying = some t →
      (t = .long ∨ t = .ulong → ¬ Overruns 0 e.values) →
      (∀ numbers, CountsUp e.values numbers → ∃ i ∈ numbers, ¬ t.Has i) →
      ∃ error, ofDescription d = .error error := by
  refine ⟨fun s => resolved_of_ofDescription, fun e member t type within unfit => ?_⟩
  cases result : ofDescription d with
  | error error => exact ⟨error, rfl⟩
  | ok s =>
    obtain ⟨r, -, resolved⟩ := exists_of_mem_right (resolved_of_ofDescription result).flip member
    obtain rfl : t = r.underlying := Option.some.inj (type.symm.trans resolved.type)
    have counted := resolved.counted.mpr fun overruns => within (resolved.wide overruns) overruns
    obtain ⟨i, number, no⟩ := unfit _ counted
    obtain ⟨v, isValue, rfl⟩ := List.mem_map.mp number
    exact absurd (resolved.fits v isValue) no

/-- Numbers are given and counted up within the range of a byte, or beyond it. -/
theorem levels_numbered :
    (∃ s, ofDescription (.ofEnum "byte" [⟨"Low", none⟩, ⟨"High", some 126⟩, ⟨"Top", none⟩]) = .ok s ∧
      s.enums.toList.map (fun e => e.values.map Enumerator.value) = [[0, 126, 127]] ∧
      List.Forall₂ Description.Enum.Resolved
        [⟨"Level", "byte", [⟨"Low", none⟩, ⟨"High", some 126⟩, ⟨"Top", none⟩]⟩] s.enums.toList) ∧
    ∃ error, ofDescription (.ofEnum "byte" [⟨"High", some 127⟩, ⟨"Top", none⟩]) = .error error := by
  constructor
  · have accepted : ((ofDescription (.ofEnum "byte"
        [⟨"Low", none⟩, ⟨"High", some 126⟩, ⟨"Top", none⟩])).toOption.map fun s =>
          s.enums.toList.map fun e => e.values.map Enumerator.value) = some [[0, 126, 127]] := by
      decide +kernel
    obtain ⟨s, result, numbers⟩ := Option.map_eq_some_iff.mp accepted
    have result := toOption_eq_some_iff.mp result
    exact ⟨s, result, numbers, (enums_of_ofDescription _).1 s result⟩
  · refine (enums_of_ofDescription _).2 _ List.mem_cons_self .byte (by decide) (by simp) ?_
    intro numbers counted
    obtain rfl := numbers_iff.mp counted
    exact ⟨128, by decide, by simp [ScalarType.Has]⟩

/-- Behind the greatest `long` an enumerator without a number of its own has this one again, although a
number that is counted up does not fit the type. -/
theorem last_repeated :
    (∃ s, ofDescription (.ofEnum "long" [⟨"Last", some (2 ^ 63 - 1)⟩, ⟨"Beyond", none⟩]) = .ok s ∧
      s.enums.toList.map (fun e => e.values.map Enumerator.value) = [[2 ^ 63 - 1, 2 ^ 63 - 1]]) ∧
    ∀ numbers, CountsUp [⟨"Last", some (2 ^ 63 - 1)⟩, ⟨"Beyond", none⟩] numbers →
      ∃ i ∈ numbers, ¬ ScalarType.long.Has i := by
  constructor
  · have accepted : ((ofDescription (.ofEnum "long"
        [⟨"Last", some (2 ^ 63 - 1)⟩, ⟨"Beyond", none⟩])).toOption.map fun s =>
          s.enums.toList.map fun e => e.values.map Enumerator.value) =
            some [[2 ^ 63 - 1, 2 ^ 63 - 1]] := by
      decide +kernel
    obtain ⟨s, result, numbers⟩ := Option.map_eq_some_iff.mp accepted
    exact ⟨s, toOption_eq_some_iff.mp result, numbers⟩
  · intro numbers counted
    obtain rfl := numbers_iff.mp counted
    exact ⟨2 ^ 63, by decide, by simp [ScalarType.Has]⟩

end Schema
end FlatTable

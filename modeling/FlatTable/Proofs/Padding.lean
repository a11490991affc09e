import FlatTable.Schema.Basic
import FlatTable.Proofs.Bytes
import Mathlib.Data.Nat.Prime.Basic

/-! Padding reaches the next multiple of an alignment, and structs are laid out by it. -/
namespace FlatTable.Layout

/-- The padding to a power of two is a remainder of the negated size. -/
private theorem padding_eq_mod (size : Nat) {k : Nat} (h : k < 64) :
    padding size (2 ^ k) = (2 ^ 64 - size % 2 ^ 64) % 2 ^ 64 % 2 ^ k := by
  have small : 2 ^ k < 2 ^ 64 := Nat.pow_lt_pow_right (by decide) h
  have positive : 0 < 2 ^ k := Nat.two_pow_pos k
  have mask : (UInt64.ofNat (2 ^ k) - 1).toNat = 2 ^ k - 1 := by
    have one : (1 : UInt64) ≤ UInt64.ofNat (2 ^ k) := by
      rw [UInt64.le_iff_toNat_le, UInt64.toNat_ofNat', Nat.mod_eq_of_lt small]
      exact positive
    rw [UInt64.toNat_sub_of_le _ _ one, UInt64.toNat_ofNat', Nat.mod_eq_of_lt small]
    rfl
  have negated : (0 - UInt64.ofNat size).toNat = (2 ^ 64 - size % 2 ^ 64) % 2 ^ 64 := by
    rw [UInt64.toNat_sub, UInt64.toNat_ofNat']
    rfl
  rw [padding, UInt64.toNat_and, mask, negated, Nat.and_two_pow_sub_one_eq_mod]

theorem padding_lt_two_pow (size : Nat) {k : Nat} (h : k < 64) : padding size (2 ^ k) < 2 ^ k := by
  rw [padding_eq_mod size h]
  exact Nat.mod_lt _ (Nat.two_pow_pos k)

/-- A padded size is a multiple of the alignment. -/
theorem two_pow_dvd_add_padding (size : Nat) {k : Nat} (h : k < 64) :
    2 ^ k ∣ size + padding size (2 ^ k) := by
  have word : 2 ^ k ∣ 2 ^ 64 := Nat.pow_dvd_pow 2 (by omega)
  have whole : 2 ^ 64 ∣ size + (2 ^ 64 - size % 2 ^ 64) % 2 ^ 64 := by omega
  rw [padding_eq_mod size h, Nat.dvd_iff_mod_eq_zero, Nat.add_mod_mod, ← Nat.dvd_iff_mod_eq_zero]
  exact Nat.dvd_trans word whole

/-- The alignments of a buffer are the divisors of eight. -/
theorem eq_two_pow_of_dvd_eight {a : Nat} (h : a ∣ 8) : ∃ k, k < 4 ∧ a = 2 ^ k := by
  obtain ⟨k, bound, rfl⟩ := (Nat.dvd_prime_pow Nat.prime_two).mp (show a ∣ 2 ^ 3 from h)
  exact ⟨k, by omega, rfl⟩

theorem padding_lt (size : Nat) {a : Nat} (h : a ∣ 8) : padding size a < a := by
  obtain ⟨k, bound, rfl⟩ := eq_two_pow_of_dvd_eight h
  exact padding_lt_two_pow size (by omega)

theorem dvd_add_padding (size : Nat) {a : Nat} (h : a ∣ 8) : a ∣ size + padding size a := by
  obtain ⟨k, bound, rfl⟩ := eq_two_pow_of_dvd_eight h
  exact two_pow_dvd_add_padding size (by omega)

/-- A multiple of the alignment needs no padding. -/
theorem padding_of_dvd {size a : Nat} (h : a ∣ 8) (aligned : a ∣ size) : padding size a = 0 := by
  have rest : a ∣ padding size a := (Nat.dvd_add_right aligned).mp (dvd_add_padding size h)
  exact Nat.eq_zero_of_dvd_of_lt rest (padding_lt size h)

/-- Of two alignments the greater is a multiple of the smaller. -/
theorem dvd_of_le_of_dvd_eight {a b : Nat} (ha : a ∣ 8) (hb : b ∣ 8) (h : a ≤ b) : a ∣ b := by
  obtain ⟨i, _, rfl⟩ := eq_two_pow_of_dvd_eight ha
  obtain ⟨j, _, rfl⟩ := eq_two_pow_of_dvd_eight hb
  exact Nat.pow_dvd_pow 2 ((Nat.pow_le_pow_iff_right (by decide)).mp h)

/-- How many bytes are used when so many of `width` have been written at a multiple of an alignment, in front
of those that are used already. -/
def usedAfter (used width alignment : Nat) : Nat := used + (padding (used + width) alignment + width)

theorem le_usedAfter (used width alignment : Nat) : used ≤ usedAfter used width alignment :=
  Nat.le_add_right _ _

theorem dvd_usedAfter (used width : Nat) {a : Nat} (h : a ∣ 8) : a ∣ usedAfter used width a := by
  rw [usedAfter, ← Nat.add_assoc, Nat.add_right_comm]
  exact dvd_add_padding _ h

theorem usedAfter_of_dvd {used width a : Nat} (h : a ∣ 8) (aligned : a ∣ used + width) :
    usedAfter used width a = used + width := by
  rw [usedAfter, padding_of_dvd h aligned, Nat.zero_add]

theorem max_dvd_eight {a b : Nat} (ha : a ∣ 8) (hb : b ∣ 8) : max a b ∣ 8 := by
  rcases Nat.le_total a b with h | h
  · rwa [Nat.max_eq_right h]
  · rwa [Nat.max_eq_left h]

end FlatTable.Layout

namespace FlatTable.StructDef
open Layout

private theorem foldl_max_dvd_eight (ws : List Nat) (a : Nat) (ha : a ∣ 8)
    (h : ∀ w ∈ ws, w ∣ 8) : ws.foldl max a ∣ 8 := by
  induction ws generalizing a with
  | nil => exact ha
  | cons w ws ih =>
    exact ih _ (max_dvd_eight ha (h w (by simp))) fun x hx => h x (by simp [hx])

theorem alignment_dvd_eight (d : StructDef) : d.alignment ∣ 8 := by
  apply foldl_max_dvd_eight _ _ (by decide)
  intro w hw
  obtain ⟨m, _, rfl⟩ := List.mem_map.mp hw
  exact m.type.width_dvd_eight

/-- The size of a struct keeps the next one aligned. -/
theorem alignment_dvd_size (d : StructDef) : d.alignment ∣ d.size :=
  dvd_add_padding _ d.alignment_dvd_eight

private theorem le_endFrom (pos : Nat) (ms : List Member) : pos ≤ endFrom pos ms := by
  induction ms generalizing pos with
  | nil => exact Nat.le_refl _
  | cons m ms ih =>
    have := ih (pos + padding pos m.type.width + m.type.width)
    simp only [endFrom]
    omega

theorem length_offsetsFrom (pos : Nat) (ms : List Member) :
    (offsetsFrom pos ms).length = ms.length := by
  induction ms generalizing pos with
  | nil => rfl
  | cons m ms ih => simp [offsetsFrom, ih]

private theorem offsetsFrom_bound (pos : Nat) (ms : List Member) {i o : Nat} {m : Member}
    (member : ms[i]? = some m) (offset : (offsetsFrom pos ms)[i]? = some o) :
    o + m.type.width ≤ endFrom pos ms := by
  induction ms generalizing pos i with
  | nil => simp at member
  | cons head rest ih =>
    cases i with
    | zero =>
      simp only [offsetsFrom, List.getElem?_cons_zero, Option.some.injEq] at member offset
      subst member offset
      exact le_endFrom _ _
    | succ i =>
      simp only [offsetsFrom, List.getElem?_cons_succ] at member offset
      exact ih _ member offset

private theorem le_offsetsFrom {pos i o : Nat} {ms : List Member}
    (offset : (offsetsFrom pos ms)[i]? = some o) : pos ≤ o := by
  induction ms generalizing pos i with
  | nil => cases offset
  | cons head rest ih =>
    cases i with
    | zero =>
      simp only [offsetsFrom, List.getElem?_cons_zero, Option.some.injEq] at offset
      omega
    | succ i =>
      simp only [offsetsFrom, List.getElem?_cons_succ] at offset
      have := ih offset
      omega

private theorem offsetsFrom_before {pos i j o o' : Nat} {ms : List Member} {m : Member}
    (before : i < j) (member : ms[i]? = some m) (offset : (offsetsFrom pos ms)[i]? = some o)
    (offset' : (offsetsFrom pos ms)[j]? = some o') : o + m.type.width ≤ o' := by
  induction ms generalizing pos i j with
  | nil => cases offset
  | cons head rest ih =>
    obtain ⟨j, rfl⟩ := Nat.exists_eq_succ_of_ne_zero (Nat.ne_zero_of_lt before)
    cases i with
    | zero =>
      simp only [offsetsFrom, List.getElem?_cons_zero, List.getElem?_cons_succ,
        Option.some.injEq] at member offset offset'
      subst member offset
      exact le_offsetsFrom offset'
    | succ i =>
      simp only [offsetsFrom, List.getElem?_cons_succ] at member offset offset'
      exact ih (Nat.lt_of_succ_lt_succ before) member offset offset'

/-- A member ends before the next ones begin. -/
theorem offset_before {d : StructDef} {i j o o' : Nat} {m : Member} (before : i < j)
    (member : d.members[i]? = some m) (offset : d.offsets[i]? = some o)
    (offset' : d.offsets[j]? = some o') : o + m.type.width ≤ o' :=
  offsetsFrom_before before member offset offset'

/-- Every member lies inside the struct. -/
theorem offset_add_width_le_size {d : StructDef} {i o : Nat} {m : Member}
    (member : d.members[i]? = some m) (offset : d.offsets[i]? = some o) :
    o + m.type.width ≤ d.size := by
  have := offsetsFrom_bound 0 d.members member offset
  simp only [size]
  omega

theorem exists_offset {d : StructDef} {i : Nat} {m : Member} (member : d.members[i]? = some m) :
    ∃ o, d.offsets[i]? = some o := by
  have inside : i < d.members.length := (List.getElem?_eq_some_iff.mp member).1
  exact ⟨_, List.getElem?_eq_getElem (by rw [offsets, length_offsetsFrom]; exact inside)⟩

theorem size_pos {d : StructDef} (nonempty : d.members ≠ []) : 0 < d.size := by
  obtain ⟨m, rest, members⟩ := List.exists_cons_of_ne_nil nonempty
  have member : d.members[0]? = some m := by rw [members]; rfl
  obtain ⟨o, offset⟩ := exists_offset member
  have inside := offset_add_width_le_size member offset
  have := m.type.width_pos
  omega

end FlatTable.StructDef

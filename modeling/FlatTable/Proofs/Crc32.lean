import FlatTable.Crc32
import Mathlib.Data.Nat.Bitwise

/-! What the check value tells about two sequences of bytes of one length. Being linear, it depends
on nothing but the bits in which they differ, and it misses no difference within four bytes. -/
namespace FlatTable.Crc32

def remainder (bytes : List UInt8) : UInt32 := bytes.foldl step 0

def difference (a b : List UInt8) : List UInt8 := List.zipWith (· ^^^ ·) a b

/-! ### Shifts -/

private theorem low_bit (r : UInt32) : (r &&& 1).toNat = r.toNat % 2 :=
  (UInt32.toNat_and r 1).trans (Nat.and_one_is_mod r.toNat)

private theorem low_bit_eq (r : UInt32) : r &&& 1 = 0 ∨ r &&& 1 = 1 := by
  rcases Nat.mod_two_eq_zero_or_one r.toNat with even | odd
  · exact .inl (UInt32.toNat_inj.mp ((low_bit r).trans even))
  · exact .inr (UInt32.toNat_inj.mp ((low_bit r).trans odd))

private theorem xor_xor_xor_cancel (a b p : UInt32) : a ^^^ b = a ^^^ p ^^^ (b ^^^ p) := by
  rw [UInt32.xor_comm b p, UInt32.xor_assoc, ← UInt32.xor_assoc p, UInt32.xor_self, UInt32.zero_xor]

theorem shift_xor (r r' : UInt32) : shift (r ^^^ r') = shift r ^^^ shift r' := by
  have low : (r ^^^ r') &&& 1 = (r &&& 1) ^^^ (r' &&& 1) := by
    apply UInt32.toNat_inj.mp
    simp only [UInt32.toNat_and, UInt32.toNat_xor]
    exact Nat.and_xor_distrib_right
  simp only [shift, low, UInt32.shiftRight_xor]
  rcases low_bit_eq r with h | h <;> rcases low_bit_eq r' with h' | h' <;> rw [h, h']
  · rfl
  · exact UInt32.xor_assoc _ _ _
  · simp only [UInt32.xor_zero, if_true, if_neg (show ¬ (0 : UInt32) = 1 by decide)]
    rw [UInt32.xor_assoc, UInt32.xor_assoc, UInt32.xor_comm (r' >>> 1)]
  · exact xor_xor_xor_cancel _ _ _

theorem repeat_shift_xor (n : Nat) (r r' : UInt32) :
    Nat.repeat shift n (r ^^^ r') = Nat.repeat shift n r ^^^ Nat.repeat shift n r' := by
  induction n with
  | zero => rfl
  | succ n ih => simp only [Nat.repeat, ih, shift_xor]

/-- The polynomial has the top bit set, so a remainder without it comes from an even one. -/
private theorem toNat_of_shift_lt {r : UInt32} (small : (shift r).toNat < 2 ^ 31) :
    r.toNat = 2 * (shift r).toNat := by
  have half : (r >>> 1).toNat = r.toNat / 2 := by
    rw [UInt32.toNat_shiftRight]
    exact Nat.shiftRight_succ r.toNat 0
  have below : r.toNat < 2 ^ 32 := r.toNat_lt
  have low := low_bit r
  rcases low_bit_eq r with even | odd
  · rw [even, UInt32.toNat_zero] at low
    rw [shift, if_neg (by rw [even]; decide), half]
    omega
  · rw [shift, if_pos odd, UInt32.toNat_xor] at small
    have top := Nat.xor_lt_two_pow small (show (r >>> 1).toNat < 2 ^ 31 by omega)
    rw [Nat.xor_comm, ← Nat.xor_assoc, Nat.xor_self, Nat.zero_xor] at top
    exact absurd top (by decide)

/-- Shifts that lead to a small remainder did nothing but move it down. -/
theorem toNat_of_repeat_shift_lt {n k : Nat} {r : UInt32}
    (small : (Nat.repeat shift n r).toNat < 2 ^ k) (room : k + n ≤ 32) :
    r.toNat = 2 ^ n * (Nat.repeat shift n r).toNat := by
  induction n generalizing k with
  | zero => rw [Nat.pow_zero, Nat.one_mul, Nat.repeat]
  | succ n ih =>
    have most : 2 ^ k ≤ 2 ^ 31 := Nat.pow_le_pow_right (by decide) (by omega)
    have last : (Nat.repeat shift n r).toNat = 2 * (Nat.repeat shift (n + 1) r).toNat :=
      toNat_of_shift_lt (Nat.lt_of_lt_of_le small most)
    rw [ih (k := k + 1) (by omega) (by omega), last, Nat.pow_succ, Nat.mul_assoc]

/-! ### Bytes -/

theorem step_xor (r r' : UInt32) (x y : UInt8) :
    step (r ^^^ r') (x ^^^ y) = step r x ^^^ step r' y := by
  rw [step, step, step, ← repeat_shift_xor, UInt8.toUInt32_xor]
  congr 1
  rw [UInt32.xor_assoc, UInt32.xor_assoc, ← UInt32.xor_assoc r', UInt32.xor_comm r',
    UInt32.xor_assoc x.toUInt32]

theorem foldl_step_xor {a b : List UInt8} (length : a.length = b.length) (r r' : UInt32) :
    (difference a b).foldl step (r ^^^ r') = a.foldl step r ^^^ b.foldl step r' := by
  induction a generalizing b r r' with
  | nil =>
    obtain rfl := List.length_eq_zero_iff.mp length.symm
    rfl
  | cons x a ih =>
    obtain ⟨y, b, rfl⟩ := List.exists_cons_of_length_eq_add_one length.symm
    rw [List.foldl_cons, List.foldl_cons, ← ih (Nat.succ.inj length), ← step_xor]
    rfl

/-- Bytes that lead to zero: the remainder had no more bits than they have, and if there was none
then all of them are zero. -/
private theorem of_foldl_step_eq_zero {bytes : List UInt8} {r : UInt32} (few : bytes.length ≤ 4)
    (zero : bytes.foldl step r = 0) :
    r.toNat < 2 ^ (8 * bytes.length) ∧ (r = 0 → ∀ x ∈ bytes, x = 0) := by
  induction bytes generalizing r with
  | nil =>
    obtain rfl : r = 0 := zero
    exact ⟨by decide, by simp⟩
  | cons x bytes ih =>
    rw [List.length_cons] at few ⊢
    obtain ⟨small, rest⟩ := ih (by omega) zero
    have moved : (r ^^^ x.toUInt32).toNat = 2 ^ 8 * (step r x).toNat :=
      toNat_of_repeat_shift_lt small (by omega)
    have byte : x.toUInt32.toNat < 2 ^ 8 := x.toNat_lt
    have wider : 2 ^ (8 * (bytes.length + 1)) = 2 ^ 8 * 2 ^ (8 * bytes.length) := by
      rw [← Nat.pow_add]
      congr 1
      omega
    constructor
    · have one : 2 ^ 8 ≤ 2 ^ (8 * (bytes.length + 1)) := Nat.pow_le_pow_right (by decide) (by omega)
      have room := Nat.xor_lt_two_pow (show (r ^^^ x.toUInt32).toNat < _ by
        rw [moved, wider]
        exact Nat.mul_lt_mul_of_pos_left small (by decide)) (Nat.lt_of_lt_of_le byte one)
      rwa [← UInt32.toNat_xor, UInt32.xor_assoc, UInt32.xor_self, UInt32.xor_zero] at room
    · rintro rfl
      rw [UInt32.zero_xor] at moved
      have next : step 0 x = 0 := UInt32.toNat_inj.mp (by rw [UInt32.toNat_zero]; omega)
      have here : x = 0 := UInt8.toNat_inj.mp (by
        rw [UInt8.toNat_zero, ← UInt8.toNat_toUInt32, moved, next, UInt32.toNat_zero, Nat.mul_zero])
      intro y member
      rcases List.mem_cons.mp member with rfl | behind
      · exact here
      · exact rest next y behind

theorem foldl_step_of_zeros {bytes : List UInt8} (zeros : ∀ x ∈ bytes, x = 0) (r : UInt32) :
    bytes.foldl step r = 0 ↔ r = 0 := by
  induction bytes generalizing r with
  | nil => rfl
  | cons x bytes ih =>
    obtain rfl : x = 0 := zeros x (by simp)
    rw [List.foldl_cons, ih fun y member => zeros y (List.mem_cons_of_mem _ member)]
    constructor
    · intro zero
      have moved : (r ^^^ (0 : UInt8).toUInt32).toNat = 2 ^ 8 * (step r 0).toNat :=
        toNat_of_repeat_shift_lt (k := 0) (by rw [← step, zero]; decide) (by decide)
      rw [zero, show (0 : UInt8).toUInt32 = 0 from rfl, UInt32.xor_zero] at moved
      exact UInt32.toNat_inj.mp moved
    · rintro rfl
      decide

/-! ### Check values -/

variable {a b : Array UInt8}

theorem checksum_eq_iff (size : a.size = b.size) :
    checksum a = checksum b ↔ remainder (difference a.toList b.toList) = 0 := by
  have length : a.toList.length = b.toList.length := size
  rw [remainder, ← UInt32.xor_self (a := 0xFFFFFFFF), foldl_step_xor length, UInt32.xor_self,
    UInt32.xor_eq_zero_iff, checksum, checksum, UInt32.xor_left_inj, Array.foldl_toList,
    Array.foldl_toList]

private theorem getElem?_difference {k : Nat} {x y : UInt8} (left : a[k]? = some x)
    (right : b[k]? = some y) : (difference a.toList b.toList)[k]? = some (x ^^^ y) := by
  rw [difference, List.getElem?_zipWith, Array.getElem?_toList, Array.getElem?_toList, left, right]

/-- Two sequences of bytes that differ within four bytes have different check values. -/
theorem checksum_eq_iff_of_near (size : a.size = b.size) {p : Nat}
    (near : ∀ k, k < p ∨ p + 4 ≤ k → a[k]? = b[k]?) : checksum a = checksum b ↔ a = b := by
  refine ⟨fun same => ?_, congrArg checksum⟩
  rw [checksum_eq_iff size] at same
  generalize split : difference a.toList b.toList = d at same
  have outside (k : Nat) (x : UInt8) (away : k < p ∨ p + 4 ≤ k) (here : d[k]? = some x) :
      x = 0 := by
    rw [← split, difference, List.getElem?_zipWith, Array.getElem?_toList, Array.getElem?_toList,
      near k away] at here
    cases read : b[k]? with
    | none =>
      rw [read] at here
      cases here
    | some y =>
      rw [read] at here
      obtain rfl := Option.some.inj here
      exact UInt8.xor_self
  have front : ∀ x ∈ d.take p, x = 0 := by
    intro x member
    obtain ⟨k, here⟩ := List.mem_iff_getElem?.mp member
    rw [List.getElem?_take] at here
    split at here
    · exact outside k x (.inl ‹_›) here
    · cases here
  have behind : ∀ x ∈ (d.drop p).drop 4, x = 0 := by
    intro x member
    obtain ⟨k, here⟩ := List.mem_iff_getElem?.mp member
    rw [List.drop_drop, List.getElem?_drop] at here
    exact outside _ x (.inr (by omega)) here
  have middle : ∀ x ∈ (d.drop p).take 4, x = 0 := by
    rw [remainder, ← List.take_append_drop p d, ← List.take_append_drop 4 (d.drop p),
      List.foldl_append, List.foldl_append, foldl_step_of_zeros behind,
      (foldl_step_of_zeros front 0).mpr rfl] at same
    exact (of_foldl_step_eq_zero (List.length_take_le 4 _) same).2 rfl
  have zeros : ∀ x ∈ d, x = 0 := by
    intro x member
    rw [← List.take_append_drop p d, ← List.take_append_drop 4 (d.drop p), List.mem_append,
      List.mem_append] at member
    rcases member with h | h | h
    · exact front x h
    · exact middle x h
    · exact behind x h
  refine Array.ext size fun k left right => ?_
  have here :=
    getElem?_difference (Array.getElem?_eq_getElem left) (Array.getElem?_eq_getElem right)
  rw [split] at here
  exact UInt8.xor_eq_zero_iff.mp (zeros _ (List.mem_of_getElem? here))

end FlatTable.Crc32

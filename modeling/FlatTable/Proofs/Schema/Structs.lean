import FlatTable.Proofs.Padding
import Mathlib.Order.Bounds.Defs

/-! Structs take up the least space that the alignments of their members allow, and wherever a struct is
aligned so are all of its members. -/
namespace FlatTable
open Layout

namespace Layout

/-- Padding adds the least number of bytes that makes a size a multiple of the alignment. -/
theorem padding_isLeast (size : Nat) {k : Nat} (word : k < 64) :
    IsLeast {p | 2 ^ k ∣ size + p} (padding size (2 ^ k)) := by
  refine ⟨two_pow_dvd_add_padding size word, fun p whole => ?_⟩
  by_contra more
  have less : p < padding size (2 ^ k) := Nat.lt_of_not_le more
  have difference : 2 ^ k ∣ padding size (2 ^ k) - p := by
    have both := Nat.dvd_sub (two_pow_dvd_add_padding size word) whole
    rwa [Nat.add_sub_add_left] at both
  have below := padding_lt_two_pow size word
  have none := Nat.eq_zero_of_dvd_of_lt difference (by omega)
  omega

/-- A padded size is the least multiple of the alignment that is not smaller. -/
theorem add_padding_isLeast (size : Nat) {a : Nat} (divides : a ∣ 8) :
    IsLeast {n | a ∣ n ∧ size ≤ n} (size + padding size a) := by
  obtain ⟨k, bound, rfl⟩ := eq_two_pow_of_dvd_eight divides
  obtain ⟨whole, least⟩ := padding_isLeast size (show k < 64 by omega)
  refine ⟨⟨whole, Nat.le_add_right _ _⟩, fun n given => ?_⟩
  obtain ⟨multiple, atLeast⟩ := given
  have enough : padding size (2 ^ k) ≤ n - size :=
    least (show 2 ^ k ∣ size + (n - size) by rwa [Nat.add_sub_cancel' atLeast])
  omega

end Layout

namespace StructDef
variable {d : StructDef} {ms : List Member} {m : Member} {pos i o : Nat}

def ends (d : StructDef) : List Nat :=
  (d.offsets.zip d.members).map fun (offset, m) => offset + m.type.width

/-- Where the member in front of the one with number `i` ends: nothing is in front of the first. -/
def endBefore (d : StructDef) (i : Nat) : Nat := (0 :: d.ends)[i]?.getD 0

/-! ### Offsets -/

private theorem getElem?_ends {o : Nat} (member : d.members[i]? = some m) (offset : d.offsets[i]? = some o) :
    d.ends[i]? = some (o + m.type.width) := by
  have both : (d.offsets.zip d.members)[i]? = some (o, m) := List.getElem?_zip_eq_some.mpr ⟨offset, member⟩
  rw [ends, List.getElem?_map, both, Option.map_some]

/-- The first free byte behind each member is where the next one is aligned from. -/
private theorem offsetsFrom_eq (member : ms[i]? = some m) :
    (offsetsFrom pos ms)[i]? = some (endFrom pos (ms.take i) +
      padding (endFrom pos (ms.take i)) m.type.width) := by
  induction ms generalizing pos i with
  | nil => cases member
  | cons first ms ih =>
    cases i with
    | zero =>
      obtain rfl := Option.some.inj member
      rfl
    | succ i =>
      rw [List.getElem?_cons_succ] at member
      exact ih member

private theorem endFrom_append (pos : Nat) (ms rest : List Member) :
    endFrom pos (ms ++ rest) = endFrom (endFrom pos ms) rest := by
  induction ms generalizing pos with
  | nil => rfl
  | cons first ms ih => exact ih _

/-- Each member ends where the first free byte behind it is. -/
private theorem endFrom_take (d : StructDef) {i : Nat} (inside : i ≤ d.members.length) :
    endFrom 0 (d.members.take i) = d.endBefore i := by
  cases i with
  | zero => rfl
  | succ i =>
    have member := List.getElem?_eq_getElem (show i < d.members.length from inside)
    have offset : d.offsets[i]? = some _ := offsetsFrom_eq member
    rw [List.take_add_one, member, Option.toList_some, endFrom_append, endBefore,
      List.getElem?_cons_succ, getElem?_ends member offset, Option.getD_some]
    rfl

/-- Each member begins at the least multiple of its width behind the one before it. -/
theorem offset_isLeast (member : d.members[i]? = some m) (offset : d.offsets[i]? = some o) :
    IsLeast {n | m.type.width ∣ n ∧ d.endBefore i ≤ n} o := by
  have inside : i < d.members.length := (List.getElem?_eq_some_iff.mp member).1
  have begins : o = d.endBefore i + padding (d.endBefore i) m.type.width := by
    rw [← endFrom_take d (Nat.le_of_lt inside)]
    exact Option.some.inj (offset.symm.trans (offsetsFrom_eq member))
  rw [begins]
  exact add_padding_isLeast _ m.type.width_dvd_eight

/-! ### Alignment and size -/

private theorem foldl_max_isGreatest (ws : List Nat) (a : Nat) :
    IsGreatest {w | w = a ∨ w ∈ ws} (ws.foldl max a) := by
  induction ws generalizing a with
  | nil => exact ⟨.inl rfl, fun w given => Nat.le_of_eq (given.resolve_right List.not_mem_nil)⟩
  | cons first ws ih =>
    obtain ⟨member, upper⟩ := ih (max a first)
    refine ⟨?_, fun w given => ?_⟩
    · rcases member with same | later
      · rw [List.foldl_cons, same]
        rcases Nat.le_total a first with le | le
        · exact .inr (by rw [Nat.max_eq_right le]; exact List.mem_cons_self)
        · exact .inl (Nat.max_eq_left le)
      · exact .inr (List.mem_cons_of_mem _ later)
    · have started : max a first ≤ ws.foldl max (max a first) := upper (.inl rfl)
      rcases given with rfl | given
      · exact Nat.le_trans (Nat.le_max_left _ _) started
      · rcases List.mem_cons.mp given with rfl | later
        · exact Nat.le_trans (Nat.le_max_right _ _) started
        · exact upper (.inr later)

/-- The alignment of a struct with members is the greatest of their widths. -/
theorem alignment_isGreatest (nonempty : d.members ≠ []) :
    IsGreatest {w | ∃ m ∈ d.members, m.type.width = w} d.alignment := by
  obtain ⟨member, upper⟩ := foldl_max_isGreatest (d.members.map fun m => m.type.width) 1
  have least (m : Member) (isMember : m ∈ d.members) : m.type.width ≤ d.alignment :=
    upper (.inr (List.mem_map.mpr ⟨m, isMember, rfl⟩))
  refine ⟨?_, by rintro _ ⟨m, isMember, rfl⟩; exact least m isMember⟩
  rcases member with one | widest
  · -- No width is less than one, so where the alignment is one so is the width of any member.
    obtain ⟨m, isMember⟩ := List.exists_mem_of_ne_nil _ nonempty
    have positive := m.type.width_pos
    have bound := least m isMember
    have same : d.alignment = 1 := one
    exact ⟨m, isMember, by omega⟩
  · exact List.mem_map.mp widest

/-- The size is the least multiple of the alignment behind the last member. -/
theorem size_isLeast (d : StructDef) :
    IsLeast {n | d.alignment ∣ n ∧ d.endBefore d.members.length ≤ n} d.size := by
  rw [← endFrom_take d (Nat.le_refl _), List.take_length]
  exact add_padding_isLeast _ d.alignment_dvd_eight

/-! ### The layout -/

/-- Members lie one behind the other, each at the first place that is aligned for it. -/
structure Natural (d : StructDef) : Prop where
  length : d.offsets.length = d.members.length
  offset : ∀ (i : Nat) m o, d.members[i]? = some m → d.offsets[i]? = some o →
    IsLeast {n | m.type.width ∣ n ∧ d.endBefore i ≤ n} o
  before : ∀ (i j : Nat) m o o', i < j → d.members[i]? = some m → d.offsets[i]? = some o →
    d.offsets[j]? = some o' → o + m.type.width ≤ o'
  alignment_nil : d.members = [] → d.alignment = 1
  alignment : d.members ≠ [] → IsGreatest {w | ∃ m ∈ d.members, m.type.width = w} d.alignment
  size : IsLeast {n | d.alignment ∣ n ∧ d.endBefore d.members.length ≤ n} d.size
  based : ∀ base : Nat, d.alignment ∣ base → ∀ (i : Nat) m o, d.members[i]? = some m →
    d.offsets[i]? = some o → m.type.width ∣ base + o ∧ base + o + m.type.width ≤ base + d.size

/-- Padding is the least there is, for all sizes and all powers of two that a word can hold, and so structs
are laid out naturally, whatever members they have. -/
theorem naturally_laid (d : StructDef) :
    (∀ size k : Nat, k < 64 → IsLeast {p | 2 ^ k ∣ size + p} (padding size (2 ^ k))) ∧ d.Natural := by
  refine ⟨fun size _ word => padding_isLeast size word, length_offsetsFrom 0 d.members,
    fun i m o => offset_isLeast, fun i j m o o' => offset_before, fun empty => ?_, alignment_isGreatest,
    size_isLeast d, fun base aligned i m o member offset => ⟨?_, ?_⟩⟩
  · rw [StructDef.alignment, empty]
    rfl
  · have nonempty : d.members ≠ [] := List.ne_nil_of_mem (List.mem_of_getElem? member)
    have widest : m.type.width ≤ d.alignment :=
      (alignment_isGreatest nonempty).2 ⟨m, List.mem_of_getElem? member, rfl⟩
    have divides := dvd_of_le_of_dvd_eight m.type.width_dvd_eight d.alignment_dvd_eight widest
    exact Nat.dvd_add (Nat.dvd_trans divides aligned) (offset_isLeast member offset).1.1
  · have inside := offset_add_width_le_size member offset
    omega

def mixed : StructDef := ⟨"Mixed", [⟨"flag", .bool⟩, ⟨"ratio", .double⟩, ⟨"count", .short⟩, ⟨"tint", .float⟩]⟩

theorem mixed_laid : mixed.offsets = [0, 8, 16, 20] ∧ mixed.size = 24 ∧ mixed.Natural ∧
    3 < 64 ∧ IsLeast {p | 2 ^ 3 ∣ 1 + p} (padding 1 (2 ^ 3)) ∧
      8 ∣ 40 ∧ ScalarType.short.width ∣ 40 + 16 ∧ 40 + 16 + ScalarType.short.width ≤ 40 + mixed.size := by
  obtain ⟨least, natural⟩ := naturally_laid mixed
  exact ⟨by decide, by decide, natural, by decide, least 1 3 (by decide), by decide,
    natural.based 40 (by decide) 2 ⟨"count", .short⟩ 16 rfl (by decide)⟩

end StructDef
end FlatTable

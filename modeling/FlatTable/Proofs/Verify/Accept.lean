import FlatTable.Proofs.Verify.Walk

/-! Which buffers a verifier accepts. -/
namespace FlatTable
open Layout

namespace Verifier
variable {v : Verifier} {b : Buffer} {root : Root}

def tag (v : Verifier) : List UInt8 := (v.identifier.map Identifier.bytes).getD []

def walk (v : Verifier) (b : Buffer) : Walk := ⟨b, v.schema, v.options⟩

structure Header (v : Verifier) (b : Buffer) : Prop where
  small : b.size ≤ v.options.maxBufferSize
  large : offsetSize + v.tag.length ≤ b.size
  tagged : b.slice? offsetSize v.tag.length = some v.tag

theorem checkHeader_eq_ok_iff : v.checkHeader b = .ok () ↔ v.Header b := by
  unfold checkHeader
  rw [refuse_eq_ok_iff, refuse_eq_ok_iff]
  change ¬ _ ∧ ¬ b.size < offsetSize + v.tag.length ∧
    (if (b.extract offsetSize (offsetSize + v.tag.length)).toList ≠ v.tag then _ else _) = _ ↔ _
  constructor
  · intro given
    obtain ⟨small, large, h⟩ := given
    refine ⟨by omega, by omega, ?_⟩
    split at h
    · cases h
    · rename_i tagged
      rw [Buffer.slice?, if_pos (by omega), not_not.mp tagged]
  · intro given
    obtain ⟨small, large, tagged⟩ := given
    rw [Buffer.slice?, if_pos large] at tagged
    refine ⟨by omega, by omega, ?_⟩
    rw [if_neg (not_not.mpr (Option.some.inj tagged))]
    rfl

/-- A verifier accepts a buffer whose root is a well-formed table and whose tables keep the limits,
and the root is then the answer. -/
theorem verify_eq_ok_iff :
    v.verify b = .ok root ↔
      v.Header b ∧ v.root? = some root.table ∧ (v.walk b).RefersTo 0 root.position ∧
        (v.walk b).WellFormed root.position root.table ∧
        b.depth v.schema root.position root.table ≤ v.options.maxDepth ∧
        b.visits v.schema root.position root.table ≤ v.options.maxTables := by
  unfold verify
  rw [check_eq_ok_iff, checkHeader_eq_ok_iff]
  apply and_congr_right
  intro header
  cases rooted : v.root? with
  | none =>
    constructor
    · intro h
      cases h
    · intro given
      obtain ⟨h, _⟩ := given
      cases h
  | some id =>
    have walked (position : Nat) := Walk.counts_table (w := v.walk b) header.small
      v.options.maxDepth position id 0 (Nat.zero_le _)
    simp only [bind_eq_ok_iff]
    constructor
    · intro given
      obtain ⟨position, reference, n, walk, result⟩ := given
      obtain rfl : ⟨position, id⟩ = root := Except.ok.inj result
      obtain ⟨⟨wellFormed, shallow⟩, rfl, few⟩ := (walked position n).mp walk
      exact ⟨rfl, Walk.target_eq_ok_iff.mp reference, wellFormed, shallow,
        Nat.le_trans (Nat.le_add_left _ 0) few⟩
    · intro given
      obtain ⟨same, reference, wellFormed, shallow, few⟩ := given
      obtain rfl : id = root.table := Option.some.inj same
      exact ⟨root.position, Walk.target_eq_ok_iff.mpr reference, _,
        (walked root.position _).mpr ⟨⟨wellFormed, shallow⟩, rfl,
          Nat.le_trans (Nat.le_of_eq (Nat.zero_add _)) few⟩, rfl⟩

end Verifier
end FlatTable

import FlatTable.Proofs.Mutate.Shape
import Mathlib.Logic.Relation

/-! The bytes that an accepted buffer cannot do without. A buffer that keeps them is accepted exactly
if its strings are still texts. -/
namespace FlatTable
open Layout

/-- Below a table are the table itself and all that references lead to. -/
abbrev Buffer.Below (b : Buffer) (s : Schema) : Nat × Nat → Nat × Nat → Prop :=
  Relation.ReflTransGen fun t c => c ∈ b.nested s t.1 t.2

namespace Walk
variable {w : Walk} {position id : Nat} {b' : Buffer}

/-- A well-formed table is well formed in a buffer of the same shape exactly if all strings below it
are still texts. -/
theorem WellFormed.through_iff (h : w.WellFormed position id)
    (same : ∀ t, w.buffer.Below w.schema (position, id) t →
      w.buffer.SameShape w.schema t.1 t.2 b') :
    (w.through b').WellFormed position id ↔
      ∀ t, w.buffer.Below w.schema (position, id) t → ∀ p n,
        w.buffer.Text w.schema t.1 t.2 p n → b'.IsText p n := by
  induction h with
  | @intro position id table nested ih =>
    have here := same (position, id) .refl
    have below (c : Nat × Nat) (member : c ∈ w.buffer.nested w.schema position id) :=
      ih c member fun t reached => same t (.head member reached)
    constructor
    · intro given t reached p n text
      obtain ⟨table', nested'⟩ := given
      rcases reached.cases_head with rfl | ⟨c, member, reached⟩
      · exact (tableAt_iff_isText here table).mp table' p n text
      · have member' : c ∈ b'.nested w.schema position id := here.nested ▸ member
        exact (below c member).mp (nested' c member') t reached p n text
    · intro texts
      refine .intro ((tableAt_iff_isText here table).mpr (texts _ .refl)) ?_
      intro c member'
      have member : c ∈ w.buffer.nested w.schema position id := by
        rw [← here.nested]
        exact member'
      exact (below c member).mpr fun t reached => texts t (.head member reached)

/-- All tables below a well-formed one are in order. -/
theorem WellFormed.tableAt_of_below (h : w.WellFormed position id) {t : Nat × Nat}
    (below : w.buffer.Below w.schema (position, id) t) : w.TableAt t.1 t.2 := by
  suffices wellFormed : w.WellFormed t.1 t.2 from wellFormed.table
  induction below with
  | refl => exact h
  | tail _ member ih => exact ih.nested member

/-- In a buffer of the same shape as many tables nest as deep. -/
theorem WellFormed.tally_eq (c : Tally) (h : w.WellFormed position id)
    (same : ∀ t, w.buffer.Below w.schema (position, id) t →
      w.buffer.SameShape w.schema t.1 t.2 b') :
    b'.tally c w.schema position id = w.buffer.tally c w.schema position id := by
  induction h with
  | @intro position id table nested ih =>
    rw [Buffer.tally_eq, Buffer.tally_eq, (same (position, id) .refl).nested]
    refine congrArg (1 + c.all ·) (List.map_congr_left ?_)
    intro n member
    exact ih n member fun t reached => same t (.head member reached)

end Walk

namespace Verifier
variable (v : Verifier) (b : Buffer) (root : Root)

/-- The bytes that tell where the parts of a buffer are, and the identifier that is asked for. -/
inductive Skeleton : Nat → Nat → Prop
  | reference : Skeleton 0 offsetSize
  | tag : Skeleton offsetSize v.tag.length
  | table {t : Nat × Nat} {p n : Nat} (below : b.Below v.schema (root.position, root.table) t)
      (shape : b.Shape v.schema t.1 t.2 p n) : Skeleton p n

inductive Texts : Nat → Nat → Prop
  | table {t : Nat × Nat} {p n : Nat} (below : b.Below v.schema (root.position, root.table) t)
      (text : b.Text v.schema t.1 t.2 p n) : Texts p n

structure Frozen (b' : Buffer) : Prop where
  size : b'.size = b.size
  same : ∀ p n, v.Skeleton b root p n → b.SameAt b' p n

variable {v b root} {b' : Buffer}

theorem Frozen.shape (frozen : v.Frozen b root b') {t : Nat × Nat}
    (below : b.Below v.schema (root.position, root.table) t) :
    b.SameShape v.schema t.1 t.2 b' :=
  ⟨frozen.size, fun p n shape => frozen.same p n (.table below shape)⟩

/-- In an accepted buffer all tables below the root are in order. -/
theorem tableAt_of_below (accepted : v.verify b = .ok root) {t : Nat × Nat}
    (below : b.Below v.schema (root.position, root.table) t) : (v.walk b).TableAt t.1 t.2 := by
  obtain ⟨_, _, _, wellFormed, _⟩ := verify_eq_ok_iff.mp accepted
  exact wellFormed.tableAt_of_below below

/-- What is accepted is accepted with the same skeleton exactly if its strings are still texts. -/
theorem verify_iff_isText (accepted : v.verify b = .ok root) (frozen : v.Frozen b root b') :
    v.verify b' = .ok root ↔ ∀ p n, v.Texts b root p n → b'.IsText p n := by
  obtain ⟨header, known, reference, wellFormed, shallow, few⟩ := verify_eq_ok_iff.mp accepted
  have same (t : Nat × Nat) (below : b.Below v.schema (root.position, root.table) t) :=
    frozen.shape below
  have wellFormed' := wellFormed.through_iff same
  have tally (c : Tally) := wellFormed.tally_eq c same
  have header' : v.Header b' := by
    refine ⟨frozen.size ▸ header.small, frozen.size ▸ header.large, ?_⟩
    rw [(frozen.same _ _ .tag).slice? frozen.size]
    exact header.tagged
  have reference' : (v.walk b').RefersTo 0 root.position :=
    ⟨reference.aligned, ((frozen.same _ _ .reference).target? frozen.size).trans reference.read,
      reference.forward, reference.near, frozen.size ▸ reference.inside⟩
  rw [verify_eq_ok_iff]
  constructor
  · intro h p n given
    obtain ⟨_, _, _, good, _⟩ := h
    obtain ⟨below, text⟩ := given
    exact wellFormed'.mp good _ below p n text
  · intro texts
    refine ⟨header', known, reference', wellFormed'.mpr fun t below p n text =>
      texts p n (.table below text), ?_, ?_⟩
    · exact Nat.le_trans (Nat.le_of_eq (tally .max)) shallow
    · exact Nat.le_trans (Nat.le_of_eq (tally .sum)) few

end Verifier
end FlatTable

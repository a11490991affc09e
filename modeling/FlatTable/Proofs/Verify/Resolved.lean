import FlatTable.Proofs.Schema.Valid
import FlatTable.Proofs.Verify.Exact

/-! In a valid schema every type that a walk comes to is declared, so only the root table that was asked for can
be missing. -/
namespace FlatTable
open Layout

namespace Walk
variable {w : Walk}

private def Finds {α : Type} (check : Check α) : Prop := check ≠ .error .noRootType

namespace Finds
variable {α β : Type} {x : Check α} {f : α → Check β}

private theorem bind (first : Finds x) (next : ∀ a, Finds (f a)) : Finds (x >>= f) := by
  cases x with
  | ok a => exact next a
  | error e => exact fun same => first (congrArg Except.error (Except.error.inj same))

private theorem ok (a : α) : Finds (.ok a) := fun same => by cases same

private theorem error {e : VerifyError} (other : e ≠ .noRootType) : Finds (.error e : Check α) :=
  fun same => other (Except.error.inj same)

/-- A refusal in front of further checks, or of none. -/
private theorem refuse {p : Prop} [Decidable p] {x y : Check α} (first : Finds x) (next : Finds y) :
    Finds (if p then x else y) := by
  split
  · exact first
  · exact next

private theorem forM {l : List β} {f : β → Check PUnit} (each : ∀ b, Finds (f b)) : Finds (l.forM f) := by
  induction l with
  | nil => exact ok _
  | cons b l ih => exact (each b).bind fun _ => ih

private theorem foldlM {l : List β} {f : α → β → Check α} (each : ∀ a, ∀ b ∈ l, Finds (f a b))
    (a : α) : Finds (l.foldlM f a) := by
  induction l generalizing a with
  | nil => exact ok _
  | cons b l ih =>
    exact (each a b List.mem_cons_self).bind fun a' => ih (fun a c member =>
      each a c (List.mem_cons_of_mem _ member)) a'

end Finds

/-! ### Checks -/

section
variable {position width length : Nat} {what : Subject}

private theorem finds_range : Finds (w.range position length what) :=
  Finds.refuse (.ok _) (.error (by simp [outside]))

private theorem finds_aligned : Finds (w.aligned position width what) :=
  Finds.refuse (.error (by simp)) (.ok _)

private theorem finds_number : Finds (w.number position width what) := by
  unfold number
  split
  · exact .ok _
  · exact .error (by simp [outside])

private theorem finds_target : Finds (w.target position) := by
  unfold target
  refine finds_aligned.bind fun _ => finds_number.bind fun distance => ?_
  refine .refuse (.error (by simp)) (.refuse (.error (by simp [outside])) (.ok _))

private theorem finds_string : Finds (w.string position) := by
  unfold string
  refine finds_aligned.bind fun _ => finds_number.bind fun length => finds_range.bind fun _ => ?_
  refine .refuse (.error (by simp)) (.refuse (.error (by simp)) (.ok _))

private theorem finds_vtable : Finds (w.vtable position) := by
  unfold vtable
  refine finds_aligned.bind fun _ => finds_range.bind fun _ => ?_
  split
  · exact .error (by simp)
  · refine finds_aligned.bind fun _ => finds_number.bind fun vtableSize => ?_
    refine .refuse (.error (by simp)) (finds_range.bind fun _ => finds_number.bind fun size => ?_)
    exact .refuse (.error (by simp)) (finds_range.bind fun _ => .ok _)

private theorem finds_vectorLength : Finds (w.vectorLength position width) := by
  unfold vectorLength
  refine finds_aligned.bind fun _ => finds_number.bind fun length => ?_
  refine .refuse (.error (by simp)) (finds_range.bind fun _ => ?_)
  exact .refuse (finds_aligned.bind fun _ => .ok _) (.ok _)

end

section
variable {nested : Nat → Nat → Nat → Check Nat}
  (below : ∀ position id count, id < w.schema.tables.size → Finds (nested position id count))
include below

private theorem finds_field {f : FieldDef} (resolves : w.schema.Resolves f.type)
    (position size distance count : Nat) : Finds (w.field nested position size f distance count) := by
  unfold field
  refine .refuse (.error (by simp)) (finds_aligned.bind fun _ => ?_)
  split
  · exact .ok _
  · exact .ok _
  · exact .ok _
  · exact finds_target.bind fun _ => finds_string.bind fun _ => .ok _
  · rename_i e type
    refine finds_target.bind fun _ => ?_
    unfold vector
    refine finds_vectorLength.bind fun length => ?_
    cases e with
    | scalar _ | enum _ => exact .ok _
    | string => exact (Finds.forM fun _ => finds_target.bind fun _ => finds_string).bind fun _ => .ok _
    | table id =>
      have known : id < w.schema.tables.size := resolves .table id (by rw [type]; rfl)
      exact .foldlM (fun count holder _ => finds_target.bind fun _ => below _ id _ known) _
  · rename_i id type
    have known : id < w.schema.tables.size := resolves .table id (by rw [type]; rfl)
    exact finds_target.bind fun _ => below _ id _ known

private theorem finds_tableWith (valid : w.schema.Valid) {id : Nat} (known : id < w.schema.tables.size)
    (position count : Nat) : Finds (w.tableWith nested position id count) := by
  unfold tableWith
  refine .refuse (.error (by simp)) (finds_vtable.bind fun sizes => ?_)
  have found := Array.getElem?_eq_getElem known
  rw [found]
  refine .foldlM (fun count c member => ?_) _
  obtain ⟨f, i⟩ := c
  have isField : f ∈ (w.schema.tables[id].fields.extract 0 (fieldOf sizes.2.1)).toList :=
    List.mem_of_getElem? (List.mem_zipIdx_iff_getElem?.mp member)
  have declared : f ∈ w.schema.tables[id].fields.toList := by
    rw [Array.toList_extract, List.extract_eq_take_drop] at isField
    exact List.mem_of_mem_drop (List.mem_of_mem_take isField)
  have resolves := (valid.table found).resolves f declared
  exact finds_number.bind fun distance =>
    .refuse (.ok _) (finds_field below resolves position _ distance count)

end

/-- A walk that starts at a table of a valid schema never comes to one that the schema does not have. -/
theorem table_ne_noRootType (valid : w.schema.Valid) (levels position count : Nat) {id : Nat}
    (known : id < w.schema.tables.size) : w.table levels position id count ≠ .error .noRootType := by
  induction levels generalizing position id count with
  | zero =>
    intro same
    cases same
  | succ levels ih =>
    exact finds_tableWith (fun position id count known => ih position count known) valid known position count

end Walk

namespace Verifier
variable {v : Verifier}

/-- Only the root table can be missing. -/
theorem root?_of_noRootType (valid : v.schema.Valid) {b : Buffer}
    (refused : v.verify b = .error .noRootType) : v.root? = none := by
  cases rooted : v.root? with
  | none => rfl
  | some id =>
    exfalso
    have known := (root?_eq_some_iff.mp rooted).2
    have header : v.checkHeader b ≠ .error .noRootType := by
      unfold checkHeader
      refine Walk.Finds.refuse (.error (by simp)) (.refuse (.error (by simp)) ?_)
      exact .refuse (.error (by simp)) (.ok _)
    refine Walk.Finds.bind header (fun _ => ?_) refused
    rw [rooted]
    refine Walk.finds_target.bind fun position => Walk.Finds.bind ?_ fun _ => .ok _
    exact Walk.table_ne_noRootType (w := v.walk b) valid _ _ _ known

end Verifier
end FlatTable

import FlatTable.Proofs.Convert.DraftShown
import FlatTable.Proofs.View.Finite

/-! Drafts without infinities and NaNs: those that are built into buffers without them. -/
namespace FlatTable
open Layout Build Builder

mutual

inductive Draft.Finite : Draft → Prop where
  | scalar {v : Value} (finite : v.isFinite) : Draft.Finite (.scalar v)
  | struct {values : List Value} (finite : ∀ v ∈ values, v.isFinite) : Draft.Finite (.struct values)
  | string {text : String} : Draft.Finite (.string text)
  | scalars {t : ScalarType} {items : List Value} (finite : ∀ v ∈ items, v.isFinite) :
      Draft.Finite (.scalars t items)
  | strings {texts : List String} : Draft.Finite (.strings texts)
  | table {t : TableDraft} (table : t.Finite) : Draft.Finite (.table t)
  | tables {items : List TableDraft} (each : ∀ t ∈ items, t.Finite) : Draft.Finite (.tables items)

inductive TableDraft.Finite : TableDraft → Prop where
  | mk {id : Nat} {fields : List (Nat × Draft)} (each : ∀ e ∈ fields, e.2.Finite) :
      TableDraft.Finite (.mk id fields)

end

theorem TableDraft.Finite.each {id : Nat} {fields : List (Nat × Draft)}
    (finite : (TableDraft.mk id fields).Finite) : ∀ e ∈ fields, e.2.Finite := by
  cases finite with
  | mk each => exact each

namespace Builder
variable {s : Schema} {h : History} {b : Builder}

mutual

/-- A field that stores nothing else than finite numbers holds a draft without others. -/
theorem finite_of_readAs (valid : s.Valid) (built : b.Built s h) (complete : b.Complete h) (d : Draft)
    {t : TableView} {id i : Nat} {type : FieldType} (sound : d.Sound s)
    (reads : d.ReadAs s b h type (t.field s id i)) (stored : (t.buffer.fieldPosition? t.position i).isSome)
    (finite : s.FloatsFinite t id) : d.Finite := by
  have here := finite.here i stored
  have reached {u : TableView} {id' : Nat} (leads : s.Reached t id u id') := finite.reached leads
  generalize read : t.field s id i = value at reads here
  match d, reads, sound with
  | _, .scalar v, _ => exact .scalar here
  | _, .struct declared members, _ =>
    refine .struct fun v member => ?_
    obtain ⟨j, found⟩ := List.mem_iff_getElem?.mp member
    exact here j v (by rw [members, found])
  | _, .string text, _ => exact .string
  | _, .scalars length elements, _ =>
    refine .scalars fun v member => ?_
    obtain ⟨j, found⟩ := List.mem_iff_getElem?.mp (elements ▸ List.mem_map_of_mem member)
    exact here j v (by rw [FieldVector.get?_eq_getElem?_items (by simp [elements, length]), found])
  | _, .strings length elements, _ => exact .strings
  | _, @Draft.ReadAs.table _ _ _ _ t' rev made, .table sound =>
    exact .table (finite_of_tableMade valid built complete t' sound made (reached (.field .root read)))
  | _, @Draft.ReadAs.tables _ _ _ _ items refs v id' declared made length elements, .tables each =>
    refine .tables fun t' member => ?_
    obtain ⟨r, inRefs, known⟩ := exists_of_mem_right made member
    obtain ⟨j, found⟩ := List.mem_iff_getElem?.mp (elements ▸ List.mem_map_of_mem inRefs)
    refine finite_of_tableMade valid built complete t' (each t' member) known
      (reached (.element (j := j) .root read ?_))
    rw [FieldVector.get?_eq_getElem?_items (by simp [elements, length]), found, declared t' member]

theorem finite_of_tableMade (valid : s.Valid) (built : b.Built s h) (complete : b.Complete h)
    (t : TableDraft) {rev : Nat} (sound : t.Sound s) (made : t.Made h rev)
    (finite : s.FloatsFinite ⟨b.finished.data, b.positionOf rev⟩ t.id) : t.Finite := by
  match t, made, sound with
  | _, @TableDraft.Made.mk _ _ _ fields a object table set made only,
    .mk known ordered typed each =>
    subst table
    refine .mk fun e member => ?_
    obtain ⟨x, isSet⟩ := set e member
    obtain ⟨f, field, live, hasType⟩ := typed e member
    obtain ⟨_, _, _, _, place⟩ := complete.exists_stored built object field isSet
    exact finite_of_readAs valid built complete e.2 (each e member)
      (readAs_of_made valid built complete (made e member x isSet) hasType object field live isSet)
      (by rw [place]; rfl) finite

end

end Builder
end FlatTable

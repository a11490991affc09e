import Mathlib.Data.List.Chain
import FlatTable.Proofs.Mutate.Setters
import FlatTable.Proofs.View.Sound

/-! From a table only tables behind it are gone on to, whatever the bytes are and by whatever schema
they are read. Rendering and verifying therefore end without a limit on the levels of tables. -/
namespace FlatTable
open Layout

/-! ### What a check of a table asks for -/

namespace Walk
variable {w : Walk} {check check' : Nat → Nat → Nat → Check Nat} {position id : Nat}

private theorem references_congr {holders : List Nat} {nested : Nat}
    (same : ∀ c ∈ w.buffer.tablesAt nested holders, check c.1 c.2 = check' c.1 c.2) (count : Nat) :
    holders.foldlM (fun count holder => do check (← w.target holder) nested count) count =
      holders.foldlM (fun count holder => do check' (← w.target holder) nested count) count := by
  apply foldlM_congr_of_mem
  intro holder member count
  refine bind_congr_of_ok fun target leads => ?_
  have table := (target_eq_ok_iff.mp leads).table?
  exact congrFun (same (target, nested) (Buffer.mem_tablesAt.mpr ⟨holder, member, table, rfl⟩)) count

private theorem counted_of_vectorLength {target width length : Nat}
    (h : w.vectorLength target width = .ok length) :
    w.buffer.nat? target offsetSize = some length := by
  unfold Walk.vectorLength at h
  rw [check_eq_ok_iff, bind_eq_ok_iff] at h
  simp only [number_eq_ok_iff, check_eq_ok_iff, refuse_eq_ok_iff] at h
  obtain ⟨_, found, counted, _, _, h⟩ := h
  split at h
  · cases (check_eq_ok_iff.mp h).2
    exact counted
  · cases h
    exact counted

private theorem vector_congr {element : ElementType} {holder target : Nat}
    (leads : w.RefersTo holder target)
    (same : ∀ c ∈ w.buffer.nestedAt (.vector element) holder, check c.1 c.2 = check' c.1 c.2)
    (count : Nat) : w.vector check element target count = w.vector check' element target count := by
  refine bind_congr_of_ok fun length h => ?_
  cases element with
  | scalar _ | enum _ | string => rfl
  | table nested =>
    have holders : w.buffer.elementHolders holder =
        (List.range length).map fun i => target + offsetSize + i * offsetSize := by
      simp only [Buffer.elementHolders, leads.read, counted_of_vectorLength h, Option.getD_some]
    refine references_congr (fun c member => same c ?_) count
    rw [Buffer.nestedAt, holders]
    exact member

/-- A field only asks for checks of the tables that it refers to. -/
private theorem field_congr {size distance : Nat} {f : FieldDef}
    (same : ∀ c ∈ w.buffer.nestedAt f.type (position + distance), check c.1 c.2 = check' c.1 c.2)
    (count : Nat) :
    w.field check position size f distance count = w.field check' position size f distance count := by
  refine refuse_congr fun _ => bind_congr_of_ok fun _ _ => ?_
  cases type : f.type with
  | scalar _ | enum _ | struct _ | string => rfl
  | vector element =>
    rw [type] at same
    refine bind_congr_of_ok fun target leads => ?_
    exact vector_congr (target_eq_ok_iff.mp leads) same count
  | table nested =>
    rw [type] at same
    refine bind_congr_of_ok fun target leads => ?_
    have refers := target_eq_ok_iff.mp leads
    exact congrFun (same (target, nested) (by simp [Buffer.nestedAt, refers.tablesAt])) count

/-- The check of a table asks only for checks of the tables that the table refers to. -/
theorem tableWith_congr
    (same : ∀ c ∈ w.buffer.nested w.schema position id, check c.1 c.2 = check' c.1 c.2) :
    w.tableWith check position id = w.tableWith check' position id := by
  funext count
  refine refuse_congr fun _ => bind_congr_of_ok fun sizes head => ?_
  obtain ⟨vtable, vtableSize, size⟩ := sizes
  have v := vtable_eq_ok_iff.mp head
  cases table : w.schema.tables[id]? with
  | none => rfl
  | some t =>
    apply foldlM_congr_of_mem
    intro x member count
    obtain ⟨f, i⟩ := x
    obtain ⟨field, known⟩ := mem_known.mp member
    refine bind_congr_of_ok fun distance read => ?_
    obtain ⟨_, found, place⟩ := (v.fieldPosition? i).1 known
    obtain rfl := Option.some.inj ((number_eq_ok_iff.mp read).symm.trans found)
    split
    · rfl
    · rename_i present
      rw [if_neg present] at place
      refine field_congr (fun c nested => same c (Buffer.mem_nested.mpr ?_)) count
      exact ⟨i, f, _, by rw [Schema.field?, table, Option.bind_some, field], place, nested⟩

/-- A check of every table that goes on into the tables below it without a limit on their levels. -/
def Unlimited (w : Walk) (check : Nat → Nat → Nat → Check Nat) : Prop :=
  ∀ position id, check position id = w.tableWith check position id

/-- Two numbers of levels agree if both are enough for the bytes behind the table. -/
private theorem table_eq {levels levels' : Nat} (some : 0 < levels) (some' : 0 < levels')
    (enough : w.buffer.size - position ≤ levels) (enough' : w.buffer.size - position ≤ levels') :
    w.table levels position id = w.table levels' position id := by
  induction levels generalizing levels' position id with
  | zero => omega
  | succ levels ih =>
    obtain ⟨levels', rfl⟩ := Nat.exists_eq_succ_of_ne_zero (Nat.ne_of_gt some')
    apply tableWith_congr
    intro c member
    obtain ⟨behind, inside⟩ := Buffer.lt_of_mem_nested member
    exact ih (by omega) (by omega) (by omega) (by omega)

def deepest (w : Walk) (position : Nat) : Nat → Nat → Check Nat :=
  w.table (w.buffer.size - position + 1) position

private theorem deepest_unlimited : w.Unlimited w.deepest := by
  intro position id
  apply tableWith_congr
  intro c member
  obtain ⟨behind, inside⟩ := Buffer.lt_of_mem_nested member
  exact table_eq (by omega) (by omega) (by omega) (by omega)

private theorem Unlimited.unique (h : w.Unlimited check) (h' : w.Unlimited check') :
    check position id = check' position id := by
  induction left : w.buffer.size - position using Nat.strongRecOn generalizing position id with
  | ind left ih =>
    rw [h position id, h' position id]
    apply tableWith_congr
    intro c member
    obtain ⟨behind, inside⟩ := Buffer.lt_of_mem_nested member
    exact ih _ (by omega) rfl

private theorem existsUnique_unlimited : ∃! check, w.Unlimited check := by
  refine ⟨w.deepest, deepest_unlimited, fun check unlimited => ?_⟩
  funext position id
  exact unlimited.unique deepest_unlimited

private theorem Unlimited.table_eq {levels : Nat} (h : w.Unlimited check) (some : 0 < levels)
    (enough : w.buffer.size - position ≤ levels) :
    w.table levels position id = check position id := by
  rw [h.unique deepest_unlimited]
  exact Walk.table_eq some (Nat.succ_pos _) enough (Nat.le_succ _)

end Walk

/-! ### Rendering -/

namespace Schema
variable {s : Schema}

def Unlimited (s : Schema) (render : TableView → Nat → Json) : Prop :=
  ∀ t id, render t id = s.membersJson render t id

private theorem Unlimited.unique {render render' : TableView → Nat → Json}
    (h : s.Unlimited render) (h' : s.Unlimited render') (t : TableView) (id : Nat) :
    render t id = render' t id := by
  induction left : t.buffer.size - t.position using Nat.strongRecOn generalizing t id with
  | ind left ih =>
    rw [h t id, h' t id]
    apply membersJson_congr
    intro t' id' same behind inside
    rw [← same] at inside left
    exact ih _ (by omega) t' id' rfl

private theorem tableJsonWithin_eq_tableJson {levels : Nat} {t : TableView} {id : Nat}
    (some : 0 < levels) (enough : t.buffer.size - t.position ≤ levels) :
    s.tableJsonWithin levels t id = s.tableJson t id := by
  induction levels generalizing t id with
  | zero => omega
  | succ levels ih =>
    rw [tableJson_eq]
    apply membersJson_congr
    intro t' id' same behind inside
    rw [← same] at inside enough
    exact ih (by omega) (by omega)

/-! ### Chains of tables -/

/-- One step from a table on to another, as it is made by rendering, which goes to the tables that a
field or an element of a field reads as, by changing, which opens the table of a field, and by
verifying, whose answer for a table may depend on what it answers for another. -/
inductive Follows (s : Schema) : TableView × Nat → TableView × Nat → Prop where
  | field {t t' : TableView} {id id' i : Nat} (read : t.field s id i = .table t' id') :
    Follows s (t, id) (t', id')
  | element {t t' : TableView} {id id' i j : Nat} {v : FieldVector}
      (read : t.field s id i = .vector v) (get : v.get? j = some (.table t' id')) :
    Follows s (t, id) (t', id')
  | nested {t : TableView} {id i : Nat} {m : MutableTable}
      (opened : MutableTable.nested? ⟨s, t.buffer, t.position, id⟩ i = some m) :
    Follows s (t, id) (m.view, m.table)
  | asked {t : TableView} {id position id' : Nat} {options : VerifierOptions}
      {check check' : Nat → Nat → Nat → Walk.Check Nat}
      (apart : ∀ p k, (p, k) ≠ (position, id') → check p k = check' p k)
      (differs : Walk.tableWith ⟨t.buffer, s, options⟩ check t.position id ≠
        Walk.tableWith ⟨t.buffer, s, options⟩ check' t.position id) :
    Follows s (t, id) (⟨t.buffer, position⟩, id')

/-- All steps lead to tables that a table refers to. -/
private theorem Follows.nested_mem {n n' : TableView × Nat} (h : s.Follows n n') :
    n'.1.buffer = n.1.buffer ∧ (n'.1.position, n'.2) ∈ n.1.buffer.nested s n.1.position n.2 := by
  cases h with
  | field read => exact TableView.nested_of_field read
  | element read get => exact TableView.nested_of_element read get
  | nested opened =>
    obtain ⟨f, id, holder, target, found, type, place, leads, inside, rfl⟩ :=
      MutableTable.nested?_eq_some_iff.mp opened
    refine ⟨rfl, Buffer.mem_nested.mpr ⟨_, f, holder, found, place, ?_⟩⟩
    rw [type]
    exact Buffer.mem_tablesAt.mpr
      ⟨holder, by simp, Buffer.table?_eq_some_iff.mpr ⟨leads, inside, rfl⟩, rfl⟩
  | @asked t id position id' options check check' apart differs =>
    refine ⟨rfl, by_contra fun unlisted => differs (Walk.tableWith_congr fun c member => ?_)⟩
    refine apart c.1 c.2 fun same => unlisted ?_
    rw [← same]
    exact member

theorem Follows.forward {n n' : TableView × Nat} (h : s.Follows n n') :
    n'.1.buffer = n.1.buffer ∧ n.1.position < n'.1.position ∧
      n'.1.position < n.1.buffer.size := by
  obtain ⟨same, member⟩ := h.nested_mem
  exact ⟨same, Buffer.lt_of_mem_nested member⟩

/-- Every step leaves fewer bytes behind the table. -/
private theorem chain_inside {t : TableView} {id : Nat} {chain : List (TableView × Nat)}
    (inside : t.position < t.buffer.size) (chained : ((t, id) :: chain).IsChain s.Follows) :
    (∀ n ∈ chain, n.1.buffer = t.buffer ∧ n.1.position < t.buffer.size) ∧
      t.position + chain.length < t.buffer.size := by
  induction chain generalizing t id with
  | nil => exact ⟨fun n member => absurd member List.not_mem_nil, inside⟩
  | cons n chain ih =>
    obtain ⟨step, rest⟩ := List.isChain_cons_cons.mp chained
    obtain ⟨same, behind, within⟩ := step.forward
    obtain ⟨each, short⟩ := ih (same ▸ within) rest
    rw [same] at each short
    refine ⟨fun m member => ?_, ?_⟩
    · rcases List.mem_cons.mp member with rfl | later
      · exact ⟨same, within⟩
      · exact each m later
    · have further : t.position + 1 ≤ n.1.position := behind
      rw [List.length_cons]
      exact Nat.lt_of_le_of_lt (by omega) short

private theorem forward_of_transGen {n n' : TableView × Nat}
    (leads : Relation.TransGen s.Follows n n') : n.1.position < n'.1.position := by
  induction leads with
  | single step => exact step.forward.2.1
  | tail _ step ih => exact Nat.lt_trans ih step.forward.2.1

/-- From a table inside a buffer on, whatever the bytes and the schema are, positions increase along
every chain of tables and stay inside, so that no chain is longer than the buffer and none comes
back. Rendering and verifying without a limit on the levels of tables are thus determined, and a
limit of as many levels as there are bytes from the table on does not change what they answer. -/
theorem nests_forward (s : Schema) {t : TableView} (id : Nat)
    (inside : t.position < t.buffer.size) :
    (∀ chain, ((t, id) :: chain).IsChain s.Follows →
      (((t, id) :: chain).map fun n => n.1.position).Pairwise (· < ·) ∧
        (∀ n ∈ chain, n.1.buffer = t.buffer ∧ n.1.position < t.buffer.size) ∧
          t.position + chain.length < t.buffer.size) ∧
      (∀ n, ¬ Relation.TransGen s.Follows n n) ∧
      (∃! render, s.Unlimited render) ∧ s.Unlimited s.tableJson ∧
      (∀ levels, t.buffer.size - t.position ≤ levels →
        s.tableJsonWithin levels t id = s.tableJson t id) ∧
      ∀ options : VerifierOptions, (∃! check, Walk.Unlimited ⟨t.buffer, s, options⟩ check) ∧
        ∀ check, Walk.Unlimited ⟨t.buffer, s, options⟩ check →
          ∀ levels, t.buffer.size - t.position ≤ levels →
            Walk.table ⟨t.buffer, s, options⟩ levels t.position id = check t.position id := by
  refine ⟨fun chain chained => ⟨?_, chain_inside inside chained⟩, ?_, ?_, tableJson_eq, ?_, ?_⟩
  · apply List.IsChain.pairwise
    rw [List.isChain_map]
    exact chained.imp fun _ _ step => step.forward.2.1
  · exact fun n cycle => Nat.lt_irrefl _ (forward_of_transGen cycle)
  · refine ⟨s.tableJson, tableJson_eq, fun render unlimited => ?_⟩
    funext t id
    exact unlimited.unique tableJson_eq t id
  · exact fun levels enough => tableJsonWithin_eq_tableJson (by omega) enough
  · intro options
    exact ⟨Walk.existsUnique_unlimited,
      fun check unlimited levels enough => unlimited.table_eq (by omega) enough⟩

open Verifier in
/-- The second of two nodes is an element of the vector of the first. -/
theorem twoNodes_nest :
    [(⟨twoNodes, 16⟩, 0), (⟨twoNodes, 44⟩, 0)].IsChain nodeVerifier.schema.Follows ∧
      16 < twoNodes.size ∧ 16 + [(44, 0)].length < twoNodes.size ∧
      (∀ levels, 43 ≤ levels →
        nodeVerifier.schema.tableJsonWithin levels ⟨twoNodes, 16⟩ 0 =
          nodeVerifier.schema.tableJson ⟨twoNodes, 16⟩ 0) := by
  have second : nodeVerifier.schema.Follows (⟨twoNodes, 16⟩, 0) (⟨twoNodes, 44⟩, 0) :=
    .element (i := 2) (j := 0) rfl rfl
  have chained := List.isChain_cons_cons.mpr ⟨second, .singleton _⟩
  obtain ⟨chains, _, _, _, rendered, _⟩ :=
    nests_forward nodeVerifier.schema (t := ⟨twoNodes, 16⟩) 0 (by decide)
  exact ⟨chained, by decide, (chains _ chained).2.2, rendered⟩

end Schema
end FlatTable

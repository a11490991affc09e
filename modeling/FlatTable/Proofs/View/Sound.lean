import FlatTable.Proofs.Verify.Accept
import FlatTable.Proofs.View.Rendered

/-! In a buffer that a verifier accepts no reader falls back: what is stored is what is read. -/
namespace FlatTable
open Layout

namespace TableView

/-- The entries of the vtable can all be read. Each is the distance of its field from the table, or
zero, and a field without an entry is not stored. -/
def HasVtable (t : TableView) : Prop :=
  ∃ vtable size, t.buffer.vtable? t.position = some vtable ∧
    t.buffer.nat? vtable slotSize = some size ∧
    ∀ i, (i < fieldOf size → ∃ distance,
        t.buffer.nat? (vtable + slotOf i) slotSize = some distance ∧
          t.buffer.fieldPosition? t.position i =
            if distance = 0 then none else some (t.position + distance)) ∧
      (fieldOf size ≤ i → t.buffer.fieldPosition? t.position i = none)

/-- A table without fallbacks: what its vtable says is stored reads as the schema declares it, the
rest as its default or as absent, and its rendering has the keys that this makes. -/
structure Complete (t : TableView) (s : Schema) (id : Nat) : Prop where
  vtable : t.HasVtable
  stored : ∀ i f holder, s.field? id i = some f → f.deprecated = false →
    t.buffer.fieldPosition? t.position i = some holder →
      s.IsValue f.type (t.field s id i) ∧ ∀ type, s.scalarType? f.type = some type →
        ∃ v, t.buffer.value? type holder = some v ∧ t.field s id i = .scalar v
  missing : ∀ i f, s.field? id i = some f → f.deprecated = false →
    t.buffer.fieldPosition? t.position i = none →
      t.field s id i = ((s.fieldDefault? id i).map .scalar).getD .absent
  distinct : (s.tableJson t id).keys.Nodup
  keys : ∀ name, name ∈ (s.tableJson t id).keys ↔
    ∃ i f, s.field? id i = some f ∧ f.name = name ∧ f.deprecated = false ∧
      (f.type.isFixedWidth ∨ (t.buffer.fieldPosition? t.position i).isSome)

variable {s : Schema} {t : TableView} {id i : Nat} {f : FieldDef}

theorem field_of_missing (valid : s.Valid) (h : s.field? id i = some f)
    (live : f.deprecated = false) (absent : t.buffer.fieldPosition? t.position i = none) :
    t.field s id i = ((s.fieldDefault? id i).map .scalar).getD .absent := by
  cases fixed : f.type.isFixedWidth with
  | true =>
    obtain ⟨type, scalar⟩ := valid.scalarType h fixed
    rw [field_of_scalar h live scalar, scalarField?, absent, Option.bind_none]
  | false =>
    rw [field_of_stored h live fixed, absent, Schema.fieldDefault?_of_compound h fixed,
      Option.bind_none, Option.map_none]

/-- A deprecated field reads as absent. -/
private theorem live_of_field (h : s.field? id i = some f) (present : t.field s id i ≠ .absent) :
    f.deprecated = false := by
  cases live : f.deprecated with
  | false => rfl
  | true => exact absurd (by simp only [field, h, live, if_true]) present

end TableView

namespace Walk
variable {w : Walk}

private theorem ne_absent {s : Schema} {type : FieldType} {value : FieldValue}
    (h : s.IsValue type value) : value ≠ .absent := by
  rintro rfl
  cases type <;> exact h

/-- A well-formed table is read without a fallback. -/
theorem TableAt.complete (valid : w.schema.Valid) {position id : Nat}
    (table : w.TableAt position id) :
    TableView.Complete ⟨w.buffer, position⟩ w.schema id := by
  have missing (i : Nat) (f : FieldDef) (h : w.schema.field? id i = some f)
      (live : f.deprecated = false) (absent : w.buffer.fieldPosition? position i = none) :=
    TableView.field_of_missing (t := ⟨w.buffer, position⟩) valid h live absent
  obtain ⟨distinct, keys⟩ := Schema.keys_tableJson valid ⟨w.buffer, position⟩ id
  refine ⟨?_, fun i f holder h live place => ⟨table.isValue valid h live place, ?_⟩, missing,
    distinct, ?_⟩
  · obtain ⟨_, vtable, vtableSize, size, v, _⟩ := table
    exact ⟨vtable, vtableSize, v.read, v.vtableCounted, v.fieldPosition?⟩
  · intro type scalar
    obtain ⟨v, read, _, reads⟩ := table.scalar h live scalar place
    exact ⟨v, read, reads⟩
  · intro name
    rw [keys]
    refine exists_congr fun i => exists_congr fun f => and_congr_right fun h =>
      and_congr_right ?_
    intro _
    constructor
    · intro present
      have live := TableView.live_of_field h present
      refine ⟨live, ?_⟩
      cases place : w.buffer.fieldPosition? position i with
      | some holder => exact .inr rfl
      | none =>
        left
        by_contra fixed
        rw [missing i f h live place, Schema.fieldDefault?_of_compound h (by simpa using fixed)]
          at present
        exact present rfl
    · intro given
      obtain ⟨live, reason⟩ := given
      cases place : w.buffer.fieldPosition? position i with
      | some holder => exact ne_absent (table.isValue valid h live place)
      | none =>
        have fixed : f.type.isFixedWidth := by simpa [place] using reason
        obtain ⟨type, scalar⟩ := valid.scalarType h fixed
        obtain ⟨v, default, _⟩ := valid.fieldDefault h scalar
        rw [missing i f h live place, default]
        simp

/-- Reading leads from well-formed tables to well-formed tables of the same buffer. -/
theorem WellFormed.of_reached {root : TableView} {rootId : Nat} {t : TableView} {id : Nat}
    (same : root.buffer = w.buffer) (wellFormed : w.WellFormed root.position rootId)
    (reached : w.schema.Reached root rootId t id) :
    t.buffer = w.buffer ∧ w.WellFormed t.position id := by
  induction reached with
  | root => exact ⟨same, wellFormed⟩
  | field before read ih =>
    obtain ⟨buffer, nested⟩ := TableView.nested_of_field read
    rw [ih.1] at buffer nested
    exact ⟨buffer, ih.2.nested nested⟩
  | element before read get ih =>
    obtain ⟨buffer, nested⟩ := TableView.nested_of_element read get
    rw [ih.1] at buffer nested
    exact ⟨buffer, ih.2.nested nested⟩

end Walk

namespace Verifier
variable {v : Verifier} {b : Buffer} {root : Root}

/-- What an accepted buffer promises its readers: no table that reading leads to falls back, and the
rendering of the root keeps the limits on tables and on their depth. -/
theorem complete_of_verify (valid : v.schema.validate = .ok ()) (accepted : v.verify b = .ok root) :
    (∀ t id, v.schema.Reached ⟨b, root.position⟩ root.table t id → t.Complete v.schema id) ∧
      v.schema.tablesIn .sum (.table root.table)
        (v.schema.tableJson ⟨b, root.position⟩ root.table) ≤ v.options.maxTables ∧
      v.schema.tablesIn .max (.table root.table)
        (v.schema.tableJson ⟨b, root.position⟩ root.table) ≤ v.options.maxDepth := by
  have valid := Schema.valid_of_validate valid
  obtain ⟨_, _, _, wellFormed, shallow, few⟩ := verify_eq_ok_iff.mp accepted
  have rendered (c : Tally) := Schema.tablesIn_tableJsonWithin_le valid c
    (b.size - root.position + 1) ⟨b, root.position⟩ root.table
  refine ⟨?_, Nat.le_trans (rendered .sum) few,
    Nat.le_trans (rendered .max) shallow⟩
  intro t id reached
  obtain ⟨same, table⟩ := Walk.WellFormed.of_reached (w := v.walk b) rfl wellFormed reached
  obtain ⟨buffer, position⟩ := t
  obtain rfl : buffer = b := same
  exact table.table.complete valid

def nodeVerifier : Verifier where
  schema := {
    nameSpace := ""
    attributes := []
    enums := #[]
    structs := #[]
    tables := #[⟨"Node", #[
      { FieldDef.plain "value" (.scalar .short) with
        declared := some (ScalarType.short.value 5) },
      .plain "name" .string,
      .plain "next" (.vector (.table 0))]⟩]
    root := some 0 }
  options := ⟨2, 2, 1000, true⟩
  identifier := none
  rootTable := none

def twoNodes : Buffer := #[
  16, 0, 0, 0, 0, 0, 10, 0, 12, 0, 6, 0, 0, 0, 8, 0, 10, 0, 0, 0, 0, 0, 7, 0, 4, 0, 0, 0,
  1, 0, 0, 0, 12, 0, 0, 0, 8, 0, 8, 0, 0, 0, 4, 0, 8, 0, 0, 0, 4, 0, 0, 0, 2, 0, 0, 0, 97, 98, 0]

theorem twoNodes_complete :
    nodeVerifier.schema.validate = .ok () ∧ nodeVerifier.verify twoNodes = .ok ⟨16, 0⟩ ∧
      (∀ t id, nodeVerifier.schema.Reached ⟨twoNodes, 16⟩ 0 t id →
        t.Complete nodeVerifier.schema id) ∧
      nodeVerifier.schema.tablesIn .sum (.table 0)
        (nodeVerifier.schema.tableJson ⟨twoNodes, 16⟩ 0) ≤ 2 ∧
      nodeVerifier.schema.tablesIn .max (.table 0)
        (nodeVerifier.schema.tableJson ⟨twoNodes, 16⟩ 0) ≤ 2 :=
  ⟨rfl, rfl, @complete_of_verify nodeVerifier twoNodes ⟨16, 0⟩ rfl rfl⟩

end Verifier
end FlatTable

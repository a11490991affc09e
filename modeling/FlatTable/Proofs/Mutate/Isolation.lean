import FlatTable.Proofs.Mutate.Writes

/-! Changing a buffer whose scalars are apart from each other: what has not been changed reads as
before, and what has been changed reads as it was set. -/
namespace FlatTable
open Layout

namespace FieldValue
variable {value : FieldValue}

theorem eq_absent_of_outline (h : value.outline = FieldValue.absent.outline) : value = .absent := by
  cases value with
  | absent => rfl
  | scalar | string | vector | table | struct => cases h

theorem eq_string_of_outline {text : String} (h : value.outline = (FieldValue.string text).outline) :
    value = .string text := by
  cases value with
  | string text' => rw [Outline.string.inj h]
  | absent | scalar | vector | table | struct => cases h

theorem exists_table_of_outline {t : TableView} {id : Nat}
    (h : value.outline = (FieldValue.table t id).outline) :
    ∃ t', value = .table t' id ∧ t'.position = t.position := by
  cases value with
  | table t' id' =>
    obtain ⟨position, rfl⟩ := Outline.table.inj h
    exact ⟨t', rfl, position⟩
  | absent | scalar | string | vector | struct => cases h

private theorem exists_table_of_itemOutline {t : TableView} {id : Nat}
    (h : value.itemOutline = .table t.position id) :
    ∃ t', value = .table t' id ∧ t'.position = t.position := by
  cases value with
  | table t' id' =>
    obtain ⟨position, rfl⟩ := Outline.table.inj h
    exact ⟨t', rfl, position⟩
  | absent | scalar | string | vector | struct => cases h

theorem exists_vector_of_outline {v : FieldVector}
    (h : value.outline = (FieldValue.vector v).outline) :
    ∃ v', value = .vector v' ∧ v'.start = v.start ∧ v'.length = v.length ∧
      ∀ j, (v'.get? j).map itemOutline = (v.get? j).map itemOutline := by
  cases value with
  | vector v' =>
    obtain ⟨start, _, items⟩ := Outline.vector.inj h
    have length : v'.length = v.length := by simpa using congrArg List.length items
    refine ⟨v', rfl, start, length, fun j => ?_⟩
    by_cases inside : j < v.length
    · have item := congrArg (·[j]?) items
      simpa [length, inside] using item
    · simp only [FieldVector.get?, length, if_neg inside]
  | absent | scalar | string | table | struct => cases h

end FieldValue

namespace Schema
variable {s : Schema} {b b' : Buffer} {position id : Nat}

/-- What reading leads to is below the root. -/
theorem Reached.isBelow {t : TableView} {id' : Nat}
    (reached : s.Reached ⟨b, position⟩ id t id') :
    t.buffer = b ∧ b.Below s (position, id) (t.position, id') := by
  induction reached with
  | root => exact ⟨rfl, .refl⟩
  | field _ read ih =>
    obtain ⟨buffer, nested⟩ := TableView.nested_of_field read
    rw [ih.1] at buffer nested
    exact ⟨buffer, ih.2.tail nested⟩
  | element _ read get ih =>
    obtain ⟨buffer, nested⟩ := TableView.nested_of_element read get
    rw [ih.1] at buffer nested
    exact ⟨buffer, ih.2.tail nested⟩

/-- One more step of reading, through fields of the same outline. -/
private theorem Reached.step {t t' u : TableView} {n n' i : Nat} {root : TableView}
    (before : s.Reached root id t n) (same : (t.field s n i).outline = (u.field s n i).outline)
    (next : u.field s n i = .table t' n' ∨
      ∃ v j, u.field s n i = .vector v ∧ v.get? j = some (.table t' n')) :
    s.Reached root id ⟨t.buffer, t'.position⟩ n' := by
  rcases next with read | ⟨v, j, read, get⟩
  · rw [read] at same
    obtain ⟨⟨buffer, p⟩, read', rfl⟩ := FieldValue.exists_table_of_outline same
    obtain rfl : buffer = t.buffer := (TableView.nested_of_field read').1
    exact before.field read'
  · rw [read] at same
    obtain ⟨v', read', _, _, items⟩ := FieldValue.exists_vector_of_outline same
    have item := items j
    rw [get, Option.map_some, Option.map_eq_some_iff] at item
    obtain ⟨value, get', outline⟩ := item
    obtain ⟨⟨buffer, p⟩, rfl, rfl⟩ := FieldValue.exists_table_of_itemOutline outline
    obtain rfl : buffer = t.buffer := (TableView.nested_of_element read' get').1
    exact before.element read' get'

/-- Reading leads to the same tables where all fields have the same outline. -/
theorem reached_iff
    (same : ∀ p n i, b.Below s (position, id) (p, n) →
      (TableView.field ⟨b', p⟩ s n i).outline = (TableView.field ⟨b, p⟩ s n i).outline)
    {p n : Nat} :
    s.Reached ⟨b', position⟩ id ⟨b', p⟩ n ↔ s.Reached ⟨b, position⟩ id ⟨b, p⟩ n := by
  have forth {t : TableView} {n : Nat} (reached : s.Reached ⟨b, position⟩ id t n) :
      s.Reached ⟨b', position⟩ id ⟨b', t.position⟩ n := by
    induction reached with
    | root => exact .root
    | @field t t' n n' i before read ih =>
      obtain ⟨rfl, below⟩ := before.isBelow
      exact ih.step (same _ _ i below) (.inl read)
    | @element t t' n n' i j v before read get ih =>
      obtain ⟨rfl, below⟩ := before.isBelow
      exact ih.step (same _ _ i below) (.inr ⟨v, j, read, get⟩)
  have back {t : TableView} {n : Nat} (reached : s.Reached ⟨b', position⟩ id t n) :
      s.Reached ⟨b, position⟩ id ⟨b, t.position⟩ n := by
    induction reached with
    | root => exact .root
    | @field t t' n n' i before read ih =>
      obtain ⟨rfl, _⟩ := before.isBelow
      exact ih.step (same _ _ i ih.isBelow.2).symm (.inl read)
    | @element t t' n n' i j v before read get ih =>
      obtain ⟨rfl, _⟩ := before.isBelow
      exact ih.step (same _ _ i ih.isBelow.2).symm (.inr ⟨v, j, read, get⟩)
  exact ⟨back, forth⟩

end Schema

/-- Both are the same scalar: a scalar of one table, or one of a vector that several fields have. -/
inductive TableView.SameCell (s : Schema) : TableView → Nat → Cell → TableView → Nat → Cell → Prop
  | here {t : TableView} {id : Nat} {c : Cell} : SameCell s t id c t id c
  | shared {t t' : TableView} {id id' i i' j : Nat} {u u' : FieldVector}
      (read : t.field s id i = .vector u) (read' : t'.field s id' i' = .vector u')
      (start : u.start = u'.start) : SameCell s t id (.element i j) t' id' (.element i' j)

theorem TableView.sameCell_iff {s : Schema} {t t' : TableView} {id id' : Nat} {c c' : Cell} :
    TableView.SameCell s t id c t' id' c' ↔ (t = t' ∧ id = id' ∧ c = c') ∨
      ∃ i i' j u u', c = .element i j ∧ c' = .element i' j ∧ t.field s id i = .vector u ∧
        t'.field s id' i' = .vector u' ∧ u.start = u'.start := by
  constructor
  · intro same
    cases same with
    | here => exact .inl ⟨rfl, rfl, rfl⟩
    | shared read read' start => exact .inr ⟨_, _, _, _, _, rfl, rfl, read, read', start⟩
  · rintro (⟨rfl, rfl, rfl⟩ | ⟨i, i', j, u, u', rfl, rfl, read, read', start⟩)
    · exact .here
    · exact .shared read read' start

/-- No field that is stored is deprecated, the scalars are apart from all else and from each other, and
those that are the same are stored in the same place. -/
structure Verifier.Isolated (v : Verifier) (b : Buffer) (root : Root) : Prop where
  live : ∀ t : Nat × Nat, b.Below v.schema (root.position, root.table) t → ∀ i f holder,
    v.schema.field? t.2 i = some f → b.fieldPosition? t.1 i = some holder → f.deprecated = false
  apart : v.Apart b root
  cells : ∀ t t' : Nat × Nat, b.Below v.schema (root.position, root.table) t →
    b.Below v.schema (root.position, root.table) t' → ∀ c c' p p' type type',
      b.CellAt v.schema t.1 t.2 c p type → b.CellAt v.schema t'.1 t'.2 c' p' type' →
        ¬ TableView.SameCell v.schema ⟨b, t.1⟩ t.2 c ⟨b, t'.1⟩ t'.2 c' →
          p + type.width ≤ p' ∨ p' + type'.width ≤ p
  shared : ∀ t t' : Nat × Nat, b.Below v.schema (root.position, root.table) t →
    b.Below v.schema (root.position, root.table) t' → ∀ c c' p type,
      b.CellAt v.schema t.1 t.2 c p type →
        TableView.SameCell v.schema ⟨b, t.1⟩ t.2 c ⟨b, t'.1⟩ t'.2 c' →
          b.CellAt v.schema t'.1 t'.2 c' p type

/-- Where no field that is stored is deprecated reading leads to all tables that can be asked for. -/
theorem Verifier.Isolated.reached {v : Verifier} {b : Buffer} {root : Root} {position id : Nat}
    (isolated : v.Isolated b root) (reachable : b.Reachable v.schema root position id) :
    v.schema.Reached ⟨b, root.position⟩ root.table ⟨b, position⟩ id := by
  induction reachable with
  | root => exact .root
  | @nested position id i holder target nested f before found isTable place leads inside ih =>
    have live := isolated.live _ before.isBelow i f holder found place
    refine ih.field (i := i) ?_
    rw [TableView.field_of_stored found live (by rw [isTable]; rfl)]
    simp only [place, Option.bind_some, isTable, TableView.stored?, Buffer.table?, leads,
      if_pos inside, Option.map_some, Option.getD_some]

namespace Editing
variable {v : Verifier} {b : Buffer} {root : Root} {m : Editing}

/-- What changes leave: the buffer is accepted again with the same root, reading leads to the same
tables, and of these the same fields are present and have the same strings, lengths and references. -/
structure Intact (v : Verifier) (b : Buffer) (root : Root) (m : Editing) : Prop where
  again : ∃ s', m.session.reverify = .ok s' ∧ s'.root = root
  reached : ∀ position id,
    v.schema.Reached ⟨m.session.buffer, root.position⟩ root.table ⟨m.session.buffer, position⟩ id ↔
      v.schema.Reached ⟨b, root.position⟩ root.table ⟨b, position⟩ id
  present : ∀ position id i f,
    v.schema.Reached ⟨b, root.position⟩ root.table ⟨b, position⟩ id →
      v.schema.field? id i = some f →
        m.session.buffer.fieldPosition? position i = b.fieldPosition? position i
  outline : ∀ position id i,
    v.schema.Reached ⟨b, root.position⟩ root.table ⟨b, position⟩ id →
      (TableView.field ⟨m.session.buffer, position⟩ v.schema id i).outline =
        (TableView.field ⟨b, position⟩ v.schema id i).outline

/-- The next change sets the scalar that it is for, and no other of all that reading leads to. -/
def SetsOnly (v : Verifier) (root : Root) (m : Editing) (change : Change) : Prop :=
  ∃ position id c value, m.Addresses change position id c value ∧
    v.schema.Reached ⟨m.session.buffer, root.position⟩ root.table
      ⟨m.session.buffer, position⟩ id ∧
    TableView.cell? ⟨(m.step change).session.buffer, position⟩ v.schema id c = some value ∧
      ∀ position' id' c', v.schema.Reached ⟨m.session.buffer, root.position⟩ root.table
          ⟨m.session.buffer, position'⟩ id' →
        (TableView.SameCell v.schema ⟨m.session.buffer, position⟩ id c
            ⟨m.session.buffer, position'⟩ id' c' →
          TableView.cell? ⟨(m.step change).session.buffer, position'⟩ v.schema id' c' =
            some value) ∧
        (¬ TableView.SameCell v.schema ⟨m.session.buffer, position⟩ id c
            ⟨m.session.buffer, position'⟩ id' c' →
          TableView.cell? ⟨(m.step change).session.buffer, position'⟩ v.schema id' c' =
            TableView.cell? ⟨m.session.buffer, position'⟩ v.schema id' c')

theorem Kept.outline (h : m.Kept v b root) {t : Nat × Nat}
    (below : b.Below v.schema (root.position, root.table) t) (i : Nat) :
    (TableView.field ⟨m.session.buffer, t.1⟩ v.schema t.2 i).outline =
      (TableView.field ⟨b, t.1⟩ v.schema t.2 i).outline :=
  (h.frozen.shape below).outline_field (fun p n text => h.texts p n (.table below text)) i

theorem Kept.reached_iff (h : m.Kept v b root) {position id : Nat} :
    v.schema.Reached ⟨m.session.buffer, root.position⟩ root.table ⟨m.session.buffer, position⟩ id ↔
      v.schema.Reached ⟨b, root.position⟩ root.table ⟨b, position⟩ id :=
  Schema.reached_iff fun _ _ i below => h.outline below i

theorem Kept.sameCell_iff (h : m.Kept v b root) {t t' : Nat × Nat} (c c' : Cell)
    (below : b.Below v.schema (root.position, root.table) t)
    (below' : b.Below v.schema (root.position, root.table) t') :
    TableView.SameCell v.schema ⟨m.session.buffer, t.1⟩ t.2 c ⟨m.session.buffer, t'.1⟩ t'.2 c' ↔
      TableView.SameCell v.schema ⟨b, t.1⟩ t.2 c ⟨b, t'.1⟩ t'.2 c' := by
  have through {b₁ b₂ : Buffer}
      (outline : ∀ u : Nat × Nat, b.Below v.schema (root.position, root.table) u → ∀ i,
        (TableView.field ⟨b₂, u.1⟩ v.schema u.2 i).outline =
          (TableView.field ⟨b₁, u.1⟩ v.schema u.2 i).outline)
      (same : TableView.SameCell v.schema ⟨b₁, t.1⟩ t.2 c ⟨b₁, t'.1⟩ t'.2 c') :
      TableView.SameCell v.schema ⟨b₂, t.1⟩ t.2 c ⟨b₂, t'.1⟩ t'.2 c' := by
    obtain ⟨p, n⟩ := t
    obtain ⟨p', n'⟩ := t'
    cases same with
    | here => exact .here
    | @shared _ _ _ i i' j u u' read read' start =>
      have first := outline _ below i
      have second := outline _ below' i'
      rw [read] at first
      rw [read'] at second
      obtain ⟨w, vector, same, _⟩ := FieldValue.exists_vector_of_outline first
      obtain ⟨w', vector', same', _⟩ := FieldValue.exists_vector_of_outline second
      exact .shared vector vector' (by rw [same, same', start])
  exact ⟨through fun _ below i => (h.outline below i).symm, through fun _ below i => h.outline below i⟩

theorem Kept.intact (accepted : v.verify b = .ok root) (sound : m.Sound v)
    (h : m.Kept v b root) : m.Intact v b root := by
  refine ⟨?_, fun _ _ => h.reached_iff, ?_, fun _ _ i reached => h.outline reached.isBelow.2 i⟩
  · exact ⟨_, (reverify_eq_ok_iff sound).mpr ⟨root, h.verify accepted, rfl⟩, rfl⟩
  · intro position id i f reached found
    exact (h.frozen.shape reached.isBelow.2).fieldPosition? found

/-- What is not refused sets the scalar that it is for, and no other. -/
theorem Kept.setsOnly (accepted : v.verify b = .ok root) (isolated : v.Isolated b root)
    (sound : m.Sound v) (h : m.Kept v b root) {change : Change}
    (given : (m.result? change).isSome) : m.SetsOnly v root change := by
  obtain ⟨b', result⟩ := Option.isSome_iff_exists.mp given
  have after : (m.step change).session.buffer = b' := by rw [buffer_step, result, Option.getD_some]
  have next := step_kept accepted isolated.apart sound h change
  obtain ⟨position, id, c, p, value, addresses, reachable, cell, write⟩ :=
    h.exists_cell accepted sound result
  have read {t : Nat × Nat} {c' : Cell}
      (below : b.Below v.schema (root.position, root.table) t)
      (cell' : b.CellAt v.schema t.1 t.2 c' p value.type) :
      TableView.cell? ⟨(m.step change).session.buffer, t.1⟩ v.schema t.2 c' = some value := by
    have stored :=
      (Verifier.tableAt_of_below accepted below).cell?_eq (next.frozen.shape below) cell'
    rw [after] at stored ⊢
    refine stored.trans ?_
    exact Buffer.value?_of_slice? (value.length_bytes ▸ Buffer.slice?_of_write? write)
  have below := reachable.isBelow
  refine ⟨position, id, c, value, addresses, h.reached_iff.mpr (isolated.reached reachable), read below cell,
    ?_⟩
  intro position' id' c' reached
  obtain ⟨_, below'⟩ := (h.reached_iff.mp reached).isBelow
  have same := h.sameCell_iff c c' below below'
  refine ⟨fun given => read below' (isolated.shared _ _ below below' _ _ _ _ cell (same.mp given)),
    fun other => ?_⟩
  apply (Verifier.tableAt_of_below accepted below').cell?_congr (h.frozen.shape below')
    (next.frozen.shape below')
  intro p' type' cell'
  have away := isolated.cells _ _ below below' _ _ _ _ _ _ cell cell' (other ∘ same.mpr)
  rw [← value.length_bytes] at away
  have stays := Buffer.sameAt_of_write? write away
  rw [after]
  simp only [Buffer.value?, stays.nat? (Buffer.size_write? write)]

end Editing

namespace Session
variable {v : Verifier} {b : Buffer} {s : Session} {changes : List Change} {m : Editing}

/-- Whatever has been changed where scalars are isolated, all else is intact, and a further change sets
what it is for and nothing else. -/
theorem intact_of_run (started : start v b = .ok s) (isolated : v.Isolated b s.root)
    (ran : (Editing.start s).run changes = m) :
    m.Intact v b s.root ∧
      ∀ change, (m.result? change).isSome → m.SetsOnly v s.root change := by
  have initial := Editing.start_sound started
  have sound := Editing.run_sound initial changes
  obtain ⟨root, accepted, rfl⟩ := Editing.start_eq_ok_iff.mp started
  have kept := Editing.run_kept accepted isolated.apart initial (Editing.start_kept _ _ _ _) changes
  rw [ran] at sound kept
  exact ⟨kept.intact accepted sound, fun change given => kept.setsOnly accepted isolated sound given⟩

end Session
end FlatTable

import FlatTable.Proofs.Mutate.Writes

/-! Fields that cannot be changed: a table's definition does not know them, they are deprecated, or
they are not stored. Everything that is asked of such a field is refused, but for the table that a
deprecated field leads to. A run that leaves those tables alone changes nothing but scalars that can
be reached without deprecated fields. -/
namespace FlatTable
open Layout

namespace MutableTable

inductive Unavailable (t : MutableTable) (i : Nat) : Prop
  | unknown (missing : t.schema.field? t.table i = none)
  | deprecated {f : FieldDef} (found : t.schema.field? t.table i = some f)
      (old : f.deprecated = true)
  | absent (missing : t.fieldPosition? i = none)

variable {t : MutableTable} {i j slot : Nat} {v : Value}

/-- What can be changed is known, is not deprecated and is stored. -/
theorem Unavailable.elim {f : FieldDef} {holder : Nat} (h : t.Unavailable i)
    (found : t.schema.field? t.table i = some f) (live : f.deprecated = false)
    (place : t.fieldPosition? i = some holder) : False := by
  cases h with
  | unknown missing => cases missing.symm.trans found
  | deprecated found' old =>
    obtain rfl := Option.some.inj (found'.symm.trans found)
    cases old.symm.trans live
  | absent missing => cases missing.symm.trans place

theorem Unavailable.setField? (h : t.Unavailable i) : t.setField? i v = none := by
  rw [Option.eq_none_iff_forall_ne_some]
  intro b' set
  obtain ⟨_, _, found, live, _, place, _⟩ := setField?_eq_some_iff.mp set
  exact h.elim found live place

theorem Unavailable.setSlot? (h : t.Unavailable (fieldOf slot)) : t.setSlot? slot v = none := by
  rw [Option.eq_none_iff_forall_ne_some]
  intro b' set
  cases h.setField?.symm.trans (setSlot?_eq_some_iff.mp set).2.2

theorem Unavailable.setMember? (h : t.Unavailable i) : t.setMember? i j v = none := by
  rw [Option.eq_none_iff_forall_ne_some]
  intro b' set
  obtain ⟨_, _, _, _, _, _, found, live, _, _, _, _, _, place, _⟩ := setMember?_eq_some_iff.mp set
  exact h.elim found live place

theorem Unavailable.vector? (h : t.Unavailable i) : t.vector? i = none := by
  rw [Option.eq_none_iff_forall_ne_some]
  intro w read
  obtain ⟨_, _, _, _, _, _, found, live, _, _, place, _⟩ := vector?_eq_some_iff.mp read
  exact h.elim found live place

theorem Unavailable.setElement? (h : t.Unavailable i) : t.setElement? i j v = none := by
  rw [Option.eq_none_iff_forall_ne_some]
  intro b' set
  obtain ⟨_, read, _⟩ := setElement?_eq_some_iff.mp set
  cases h.vector?.symm.trans read

/-- This field is deprecated, and it still stores a reference to a table. -/
def Retired (t : MutableTable) (i : Nat) : Prop :=
  ∃ f id holder, t.schema.field? t.table i = some f ∧ f.deprecated = true ∧ f.type = .table id ∧
    t.fieldPosition? i = some holder

/-- A request for a table does not ask if the field is deprecated. -/
theorem Unavailable.nested? (h : t.Unavailable i) (current : ¬ t.Retired i) :
    t.nested? i = none := by
  rw [Option.eq_none_iff_forall_ne_some]
  intro t' read
  obtain ⟨f, id, holder, _, found, isTable, place, _⟩ := nested?_eq_some_iff.mp read
  cases live : f.deprecated with
  | false => exact h.elim found live place
  | true => exact current ⟨f, id, holder, found, live, isTable, place⟩

end MutableTable

/-- The table and the field that a change or a request is for. A vector that was handed out is
changed without its field. -/
def Change.field? : Change → Option (Nat × Nat)
  | .nested n i | .vector n i _ | .field n i _ | .member n i _ _ | .element n i _ _ => some (n, i)
  | .slot n entry _ => some (n, fieldOf entry)
  | .root | .item _ _ _ | .reverify => none

namespace Editing
variable {v : Verifier} {b b' : Buffer} {root : Root} {m : Editing} {change : Change}

def Reopens (m : Editing) (change : Change) : Prop :=
  ∃ n i t, change = .nested n i ∧ m.table? n = some t ∧ t.Retired i

/-- What is asked of a field that cannot be changed has no result and leaves all as it was. -/
theorem refused_of_unavailable {n i : Nat} {t : MutableTable} (asks : change.field? = some (n, i))
    (asked : m.table? n = some t) (h : t.Unavailable i) (current : ¬ m.Reopens change) :
    m.result? change = none ∧ m.step change = m := by
  have unwritten (result : Option Buffer) (none : result = none) : m.write result = m := by
    rw [none]
    rfl
  cases change with
  | root | item | reverify => cases asks
  | nested n i =>
    cases asks
    have refused : t.nested? i = none :=
      h.nested? fun retired => current ⟨n, i, t, rfl, asked, retired⟩
    refine ⟨rfl, ?_⟩
    rw [step, asked, Option.bind_some, refused, Option.toList_none, List.append_nil]
  | vector n i type =>
    cases asks
    refine ⟨rfl, ?_⟩
    rw [step, asked, Option.bind_some, MutableTable.vectorOf?, h.vector?, Option.filter_none,
      Option.toList_none, List.append_nil]
  | field n i value =>
    cases asks
    have refused : m.result? (.field n i value) = none := by
      rw [result?, asked, Option.bind_some, h.setField?]
    exact ⟨refused, unwritten _ refused⟩
  | slot n slot value =>
    cases asks
    have refused : m.result? (.slot n slot value) = none := by
      rw [result?, asked, Option.bind_some, h.setSlot?]
    exact ⟨refused, unwritten _ refused⟩
  | member n i j value =>
    cases asks
    have refused : m.result? (.member n i j value) = none := by
      rw [result?, asked, Option.bind_some, h.setMember?]
    exact ⟨refused, unwritten _ refused⟩
  | element n i j value =>
    cases asks
    have refused : m.result? (.element n i j value) = none := by
      rw [result?, asked, Option.bind_some, h.setElement?]
    exact ⟨refused, unwritten _ refused⟩

end Editing

/-! ### What deprecated fields hide -/

namespace Buffer
variable (b : Buffer) (s : Schema)

/-- The tables that fields lead to from the root on that are not deprecated. -/
inductive Offered (root : Root) : Nat → Nat → Prop
  | root : Offered root root.position root.table
  | nested {position id i holder target nested : Nat} {f : FieldDef}
      (before : Offered root position id) (found : s.field? id i = some f)
      (live : f.deprecated = false) (isTable : f.type = .table nested)
      (place : b.fieldPosition? position i = some holder) (leads : b.target? holder = some target)
      (inside : target < b.size) : Offered root target nested

/-- The byte is one of a scalar that can be reached without deprecated fields. -/
def Offers (root : Root) (k : Nat) : Prop :=
  ∃ position id c p type, b.Offered s root position id ∧ b.CellAt s position id c p type ∧
    p ≤ k ∧ k < p + type.width

def offeredBy (position id : Nat) : List (Nat × Nat) :=
  (b.storedFields s position id).flatMap fun (f, holder) =>
    match f.deprecated, f.type with
    | false, .table nested => b.tablesAt nested [holder]
    | _, _ => []

def checkHidden (root : Root) (k : Nat) (tables : List (Nat × Nat)) : Bool :=
  closedFrom (root.position, root.table) (fun t => b.offeredBy s t.1 t.2) tables &&
    tables.all fun t => (b.tablePlaces s t.1 t.2).all fun place =>
      k < place.1 || place.1 + place.2 ≤ k

variable {b s}

private theorem Offered.reached {root : Root} {position id : Nat}
    (h : b.Offered s root position id) :
    Relation.ReflTransGen (fun t c => c ∈ b.offeredBy s t.1 t.2) (root.position, root.table)
      (position, id) := by
  induction h with
  | root => exact .refl
  | nested _ found live isTable place leads inside ih =>
    refine ih.tail (List.mem_flatMap.mpr ⟨_, mem_storedFields.mpr ⟨_, found, place⟩, ?_⟩)
    simp only [live, isTable]
    exact mem_tablesAt.mpr ⟨_, by simp, table?_eq_some_iff.mpr ⟨leads, inside, rfl⟩, rfl⟩

theorem not_offers_of_checkHidden {root : Root} {k : Nat} (tables : List (Nat × Nat))
    (checked : b.checkHidden s root k tables) : ¬ b.Offers s root k := by
  obtain ⟨closed, hidden⟩ := (Bool.and_eq_true _ _).mp checked
  simp only [List.all_eq_true, Bool.or_eq_true, decide_eq_true_eq] at hidden
  rintro ⟨position, id, _, p, type, offered, cell, low, high⟩
  obtain ⟨r, ofTable, first, last⟩ := cell.place.covered
  have outside := hidden _ (mem_of_closedFrom closed offered.reached) r ofTable
  omega

end Buffer

namespace MutableTable
variable {t t' : MutableTable} {b : Buffer} {root : Root} {i : Nat}

theorem offered_of_nested? (same : b.SameShape t.schema t.position t.table t.buffer)
    (before : b.Offered t.schema root t.position t.table) (current : ¬ t.Retired i)
    (read : t.nested? i = some t') : b.Offered t.schema root t'.position t'.table := by
  obtain ⟨f, id, holder, target, found, type, place, leads, inside, rfl⟩ :=
    nested?_eq_some_iff.mp read
  have live : f.deprecated = false := by
    rw [← Bool.not_eq_true]
    exact fun old => current ⟨f, id, holder, found, old, type, place⟩
  rw [fieldPosition?, same.fieldPosition? found] at place
  have holds : b.Holds t.schema t.position t.table f.type holder := .field found place
  rw [type] at holds
  rw [same.target? holds rfl] at leads
  exact before.nested found live type place leads (same.size ▸ inside)

end MutableTable

namespace Editing
variable {v : Verifier} {b b' : Buffer} {root : Root} {m : Editing} {change : Change}

/-- A run that never asks for the table that a deprecated field leads to. -/
def Straight (m : Editing) : List Change → Prop
  | [] => True
  | change :: changes => ¬ m.Reopens change ∧ (m.step change).Straight changes

/-- What such a run keeps: all that was asked for can be reached without deprecated fields, and so
can every byte that is no longer what it was. -/
structure Confined (v : Verifier) (b : Buffer) (root : Root) (m : Editing) : Prop where
  tables : ∀ t ∈ m.tables, b.Offered v.schema root t.position t.table
  vectors : ∀ w ∈ m.vectors, ∃ position id i, b.Offered v.schema root position id ∧
    ∀ j < w.length, b.CellAt v.schema position id (.element i j)
      (w.start + j * w.type.width) w.type
  bytes : ∀ k, m.session.buffer[k]? ≠ b[k]? → b.Offers v.schema root k

theorem start_confined (v : Verifier) (b : Buffer) (root : Root) (fingerprint : UInt32) :
    (start ⟨v, b, root, fingerprint⟩).Confined v b root where
  tables := by simp [start]
  vectors := by simp [start]
  bytes _ changed := absurd rfl changed

private theorem Confined.table? (h : m.Confined v b root) {n : Nat} {t : MutableTable}
    (asked : m.table? n = some t) : b.Offered v.schema root t.position t.table := by
  obtain ⟨t', found, rfl⟩ := Option.map_eq_some_iff.mp asked
  exact h.tables t' (List.mem_of_getElem? found)

/-- What is not refused is written to a scalar of a table that is offered. -/
private theorem Confined.exists_cell (h : m.Confined v b root) (accepted : v.verify b = .ok root)
    (sound : m.Sound v) (kept : m.Kept v b root) (given : m.result? change = some b') :
    ∃ position id c p, ∃ value : Value, b.Offered v.schema root position id ∧
      b.CellAt v.schema position id c p value.type ∧
        m.session.buffer.write? p value.bytes = some b' := by
  obtain ⟨_, _, _, p, value, addressed, _, cell, write⟩ := kept.exists_cell accepted sound given
  cases addressed with
  | field asked | slot asked | member asked | element asked =>
    exact ⟨_, _, _, p, value, h.table? asked, cell, write⟩
  | @item n i j _ _ _ _ _ asked =>
    -- the field by which the vector was asked for is offered, and not each one that has it
    obtain ⟨_, set, rfl⟩ := Option.map_eq_some_iff.mp given
    rw [asked, Option.bind_some] at set
    obtain ⟨type, inside, b', written, rfl⟩ := MutableVector.set?_eq_some_iff.mp set
    rw [buffer_of_vector? asked] at written
    obtain ⟨w, found, rfl⟩ := Option.map_eq_some_iff.mp asked
    obtain ⟨position, id, i, offered, cells⟩ := h.vectors w (List.mem_of_getElem? found)
    refine ⟨position, id, .element i j, _, value, offered, ?_, written⟩
    rw [type]
    exact cells j inside

private theorem Confined.write (h : m.Confined v b root) (accepted : v.verify b = .ok root)
    (sound : m.Sound v) (kept : m.Kept v b root) (change : Change) :
    (m.write (m.result? change)).Confined v b root := by
  refine ⟨h.tables, h.vectors, ?_⟩
  intro k changed
  cases result : m.result? change with
  | none =>
    rw [result] at changed
    exact h.bytes k changed
  | some b' =>
    obtain ⟨position, id, c, p, value, offered, cell, write⟩ :=
      h.exists_cell accepted sound kept result
    by_cases inside : p ≤ k ∧ k < p + value.type.width
    · exact ⟨position, id, c, p, _, offered, cell, inside⟩
    · rw [result] at changed
      have elsewhere := (Buffer.written_of_write? write).elsewhere k
        (by rw [value.length_bytes]; omega)
      exact h.bytes k fun same => changed (elsewhere.trans same)

theorem step_confined (accepted : v.verify b = .ok root) (sound : m.Sound v)
    (kept : m.Kept v b root) (h : m.Confined v b root) (current : ¬ m.Reopens change) :
    (m.step change).Confined v b root := by
  cases change with
  | root =>
    refine ⟨?_, h.vectors, h.bytes⟩
    intro t member
    rcases List.mem_append.mp member with before | new
    · exact h.tables t before
    · rw [List.mem_singleton.mp new]
      simp only [Session.rootTable, kept.atRoot]
      exact .root
  | nested n i =>
    refine ⟨?_, h.vectors, h.bytes⟩
    intro t member
    rcases List.mem_append.mp member with before | new
    · exact h.tables t before
    · obtain ⟨t', asked, read⟩ := Option.bind_eq_some_iff.mp (Option.mem_toList.mp new)
      obtain ⟨schema, _, _, same⟩ := kept.table? asked
      rw [← schema]
      exact MutableTable.offered_of_nested? same (schema ▸ h.table? asked)
        (fun retired => current ⟨n, i, t', rfl, asked, retired⟩) read
  | vector n i type =>
    refine ⟨h.tables, ?_, h.bytes⟩
    intro w member
    rcases List.mem_append.mp member with before | new
    · exact h.vectors w before
    · obtain ⟨t, asked, read⟩ := Option.bind_eq_some_iff.mp (Option.mem_toList.mp new)
      obtain ⟨schema, _, _, same⟩ := kept.table? asked
      have read := (Option.filter_eq_some_iff.mp read).1
      exact ⟨_, _, i, h.table? asked, schema ▸ (MutableTable.cellAt_of_vector? same read).2⟩
  | field n i value => exact h.write accepted sound kept (.field n i value)
  | slot n slot value => exact h.write accepted sound kept (.slot n slot value)
  | member n i j value => exact h.write accepted sound kept (.member n i j value)
  | element n i j value => exact h.write accepted sound kept (.element n i j value)
  | item n j value => exact h.write accepted sound kept (.item n j value)
  | reverify =>
    have same : (m.step .reverify).session.buffer = m.session.buffer := buffer_step m .reverify
    refine ⟨?_, ?_, same ▸ h.bytes⟩
    · rw [step]
      split <;> exact h.tables
    · rw [step]
      split <;> exact h.vectors

theorem run_confined (accepted : v.verify b = .ok root) (apart : v.Apart b root) (sound : m.Sound v)
    (kept : m.Kept v b root) (h : m.Confined v b root) {changes : List Change}
    (straight : m.Straight changes) : (m.run changes).Confined v b root := by
  induction changes generalizing m with
  | nil => exact h
  | cons change changes ih =>
    exact ih (step_sound sound change) (step_kept accepted apart sound kept change)
      (step_confined accepted sound kept h straight.1) straight.2

end Editing

namespace Session
variable {v : Verifier} {b : Buffer} {s : Session} {changes : List Change} {m : Editing}

/-- After any run, everything that is asked of a field that is unknown, deprecated or not stored is
refused and changes nothing, unless it is a request for the table that a deprecated field leads to.
If the places that can be changed are apart from what the buffer cannot do without, a run without such
a request changes no byte but those of scalars that can be reached without deprecated fields. -/
theorem refused_of_run (started : start v b = .ok s) (ran : (Editing.start s).run changes = m) :
    (∀ change n i t, change.field? = some (n, i) → m.table? n = some t → t.Unavailable i →
      ¬ m.Reopens change → m.result? change = none ∧ m.step change = m) ∧
    (v.Apart b s.root → (Editing.start s).Straight changes →
      ∀ k, m.session.buffer[k]? ≠ b[k]? → b.Offers v.schema s.root k) := by
  refine ⟨?_, ?_⟩
  · intro change n i t asks asked unavailable current
    exact Editing.refused_of_unavailable asks asked unavailable current
  · intro apart straight
    have sound := Editing.start_sound started
    obtain ⟨root, accepted, rfl⟩ := Editing.start_eq_ok_iff.mp started
    have confined := Editing.run_confined accepted apart sound (Editing.start_kept v b root _)
      (Editing.start_confined v b root _) straight
    rw [ran] at confined
    exact confined.bytes

def outerVerifier : Verifier := .standard {
  nameSpace := ""
  attributes := []
  enums := #[]
  structs := #[]
  tables := #[
    ⟨"Outer", #[.plain "count" (.scalar .int),
      { FieldDef.plain "old" (.table 1) with deprecated := true }]⟩,
    ⟨"Inner", #[.plain "x" (.scalar .int)]⟩]
  root := some 0 }

/-- An outer table from a time when its field was in use. -/
def outer : Buffer := #[
  12, 0, 0, 0, 8, 0, 12, 0, 4, 0, 8, 0, 8, 0, 0, 0, 5, 0, 0, 0, 12, 0, 0, 0,
  6, 0, 8, 0, 4, 0, 0, 0, 8, 0, 0, 0, 7, 0, 0, 0]

/-- A value for the deprecated field is refused, and a run that changes the count changes nothing
that the deprecated field hides. -/
theorem outer_refused :
    ∃ s, start outerVerifier outer = .ok s ∧ outerVerifier.Apart outer s.root ∧
      let changes := [.root, .field 0 0 (ScalarType.int.value 6)]
      let m := (Editing.start s).run changes
      (Editing.start s).Straight changes ∧
        (∃ t, m.table? 0 = some t ∧ t.Unavailable 1 ∧
          ¬ m.Reopens (.field 0 1 (ScalarType.int.value 7)) ∧
          m.result? (.field 0 1 (ScalarType.int.value 7)) = none ∧
            m.step (.field 0 1 (ScalarType.int.value 7)) = m) ∧
        ∀ k, m.session.buffer[k]? ≠ outer[k]? → outer.Offers outerVerifier.schema s.root k := by
  obtain ⟨s, started, root⟩ : ∃ s, start outerVerifier outer = .ok s ∧ s.root = ⟨12, 0⟩ :=
    ⟨_, rfl, rfl⟩
  have apart : outerVerifier.Apart outer s.root :=
    root ▸ Verifier.apart_of_checkApart [(12, 0), (32, 1)] (by decide)
  have straight : (Editing.start s).Straight [.root, .field 0 0 (ScalarType.int.value 6)] := by
    refine ⟨?_, ?_, trivial⟩ <;> exact fun ⟨_, _, _, nested, _⟩ => by cases nested
  have current (m : Editing) : ¬ m.Reopens (.field 0 1 (ScalarType.int.value 7)) :=
    fun ⟨_, _, _, nested, _⟩ => by cases nested
  obtain ⟨refused, hidden⟩ := refused_of_run started rfl
  refine ⟨s, started, apart, straight, ?_, hidden apart straight⟩
  obtain ⟨place, accepted, rfl⟩ := Editing.start_eq_ok_iff.mp started
  obtain rfl : place = ⟨12, 0⟩ := root
  have old (bytes : Buffer) : MutableTable.Unavailable ⟨outerVerifier.schema, bytes, 12, 0⟩ 1 :=
    .deprecated rfl rfl
  exact ⟨_, rfl, old _, current _, refused _ 0 1 _ rfl rfl (old _) (current _)⟩

/-- A request for the table of the deprecated field is not refused. It leads to the inner table, and
a byte is changed that nothing but the deprecated field leads to. -/
theorem outer_reopened :
    ∃ s, start outerVerifier outer = .ok s ∧
      let m := (Editing.start s).run [.root, .nested 0 1, .field 1 0 (ScalarType.int.value 8)]
      s.rootTable.Unavailable 1 ∧ (s.rootTable.nested? 1).isSome ∧
        m.session.buffer[36]? ≠ outer[36]? ∧ ¬ outer.Offers outerVerifier.schema s.root 36 := by
  exact ⟨_, rfl, .deprecated rfl rfl, rfl, by decide,
    Buffer.not_offers_of_checkHidden [(12, 0)] (by decide)⟩

end Session
end FlatTable

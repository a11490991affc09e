import FlatTable.Mutate.Session
import FlatTable.Proofs.Mutate.Apart
import FlatTable.Proofs.Mutate.Cells

/-! Changing an accepted buffer in place, in any order and through any table or vector that has been
asked for: when what is given up afterwards would be accepted again. -/
namespace FlatTable
open Layout

/-- A session together with the tables and the vectors that have been asked for. They keep the places
at which they were found. -/
structure Editing where
  session : Session
  tables : List MutableTable
  vectors : List MutableVector

/-- A change, or a request for a table or a vector. Tables and vectors are given by the number of
their request. -/
inductive Change where
  | root
  | nested (table field : Nat)
  | vector (table field : Nat) (type : ScalarType)
  | field (table field : Nat) (v : Value)
  | slot (table slot : Nat) (v : Value)
  | member (table field member : Nat) (v : Value)
  | element (table field i : Nat) (v : Value)
  | item (vector i : Nat) (v : Value)
  | reverify

namespace Editing

def start (s : Session) : Editing := ⟨s, [], []⟩

def table? (m : Editing) (n : Nat) : Option MutableTable :=
  m.tables[n]?.map fun t => { t with buffer := m.session.buffer }

def vector? (m : Editing) (n : Nat) : Option MutableVector :=
  m.vectors[n]?.map fun w => { w with buffer := m.session.buffer }

def write (m : Editing) (result : Option Buffer) : Editing :=
  { m with session := m.session.update result }

/-- What is refused changes nothing. -/
def step (m : Editing) : Change → Editing
  | .root => { m with tables := m.tables ++ [m.session.rootTable] }
  | .nested n i => { m with tables := m.tables ++ ((m.table? n).bind (·.nested? i)).toList }
  | .vector n i type =>
    { m with vectors := m.vectors ++ ((m.table? n).bind (·.vectorOf? i type)).toList }
  | .field n i v => m.write ((m.table? n).bind (·.setField? i v))
  | .slot n slot v => m.write ((m.table? n).bind (·.setSlot? slot v))
  | .member n i j v => m.write ((m.table? n).bind (·.setMember? i j v))
  | .element n i j v => m.write ((m.table? n).bind (·.setElement? i j v))
  | .item n j v => m.write (((m.vector? n).bind (·.set? j v)).map MutableVector.buffer)
  | .reverify =>
    match m.session.reverify with
    | .ok s => { m with session := s }
    | .error _ => m

def run (m : Editing) (changes : List Change) : Editing := changes.foldl step m

/-- The bytes that a change leads to if it is not refused. A request leads to none. -/
def result? (m : Editing) : Change → Option Buffer
  | .field n i v => (m.table? n).bind (·.setField? i v)
  | .slot n slot v => (m.table? n).bind (·.setSlot? slot v)
  | .member n i j v => (m.table? n).bind (·.setMember? i j v)
  | .element n i j v => (m.table? n).bind (·.setElement? i j v)
  | .item n j v => ((m.vector? n).bind (·.set? j v)).map MutableVector.buffer
  | .root | .nested _ _ | .vector _ _ _ | .reverify => none

/-- The scalar that a change is for, and its value. An element of a vector that was asked for is one of
every field that has this vector. -/
inductive Addresses (m : Editing) : Change → Nat → Nat → Cell → Value → Prop where
  | field {n i : Nat} {t : MutableTable} {v : Value} (asked : m.table? n = some t) :
      Addresses m (.field n i v) t.position t.table (.field i) v
  | slot {n slot : Nat} {t : MutableTable} {v : Value} (asked : m.table? n = some t) :
      Addresses m (.slot n slot v) t.position t.table (.field (fieldOf slot)) v
  | member {n i j : Nat} {t : MutableTable} {v : Value} (asked : m.table? n = some t) :
      Addresses m (.member n i j v) t.position t.table (.member i j) v
  | element {n i j : Nat} {t : MutableTable} {v : Value} (asked : m.table? n = some t) :
      Addresses m (.element n i j v) t.position t.table (.element i j) v
  | item {n i j position id : Nat} {w : MutableVector} {u : FieldVector} {v : Value}
      (asked : m.vector? n = some w)
      (read : TableView.field ⟨m.session.buffer, position⟩ m.session.verifier.schema id i = .vector u)
      (start : u.start = w.start) : Addresses m (.item n j v) position id (.element i j) v

variable {m : Editing}

/-- The bytes after a change are those that it leads to, or what they were before. -/
theorem buffer_step (m : Editing) (change : Change) :
    (m.step change).session.buffer = (m.result? change).getD m.session.buffer := by
  cases change with
  | root | nested | vector | field | slot | member | element | item => rfl
  | reverify =>
    rw [step]
    split
    · rename_i s again
      obtain ⟨root, _, same⟩ := bind_eq_ok_iff.mp again
      obtain rfl := Except.ok.inj same
      rfl
    · rfl

theorem buffer_of_table? {n : Nat} {t : MutableTable} (asked : m.table? n = some t) :
    t.buffer = m.session.buffer := by
  obtain ⟨_, _, rfl⟩ := Option.map_eq_some_iff.mp asked
  rfl

theorem buffer_of_vector? {n : Nat} {w : MutableVector} (asked : m.vector? n = some w) :
    w.buffer = m.session.buffer := by
  obtain ⟨_, _, rfl⟩ := Option.map_eq_some_iff.mp asked
  rfl

end Editing

namespace Verifier
variable {v v' : Verifier}

structure Alike (v v' : Verifier) : Prop where
  schema : v'.schema = v.schema
  options : v'.options = v.options
  identifier : v'.identifier = v.identifier
  root : v'.root? = v.root?

theorem Alike.verify (h : v.Alike v') (b : Buffer) : v'.verify b = v.verify b := by
  have header : v'.checkHeader b = v.checkHeader b := by
    simp only [checkHeader, h.options, h.identifier]
  simp only [Verifier.verify, header, h.root, h.schema, h.options]

end Verifier

namespace Editing
variable {v : Verifier} {b : Buffer} {root : Root} {m : Editing}

structure Sound (v : Verifier) (m : Editing) : Prop where
  alike : v.Alike m.session.verifier
  root : v.root? = some m.session.root.table
  known : m.session.root.table < v.schema.tables.size

/-- The verifier that checks again. -/
private theorem Sound.again (h : m.Sound v) :
    v.Alike { m.session.verifier with rootTable := some m.session.root.table } where
  schema := h.alike.schema
  options := h.alike.options
  identifier := h.alike.identifier
  root := by
    rw [h.root]
    simp only [Verifier.root?, h.alike.schema, if_pos h.known]

theorem reverify_eq_ok_iff (h : m.Sound v) {s' : Session} :
    m.session.reverify = .ok s' ↔ ∃ root, v.verify m.session.buffer = .ok root ∧
      s' = ⟨{ m.session.verifier with rootTable := some m.session.root.table }, m.session.buffer,
        root, Crc32.checksum m.session.buffer⟩ := by
  unfold Session.reverify Session.start
  rw [bind_eq_ok_iff]
  simp only [h.again.verify]
  refine exists_congr fun root => and_congr_right ?_
  intro _
  exact ⟨fun same => (Except.ok.inj same).symm, fun same => congrArg Except.ok same.symm⟩

theorem start_eq_ok_iff {s : Session} :
    Session.start v b = .ok s ↔
      ∃ root, v.verify b = .ok root ∧ s = ⟨v, b, root, Crc32.checksum b⟩ := by
  unfold Session.start
  rw [bind_eq_ok_iff]
  refine exists_congr fun root => and_congr_right ?_
  intro _
  exact ⟨fun same => (Except.ok.inj same).symm, fun same => congrArg Except.ok same.symm⟩

private theorem sound_of_verify (s : Session) (alike : v.Alike s.verifier)
    (accepted : v.verify b = .ok s.root) (tables : List MutableTable)
    (vectors : List MutableVector) : Sound v ⟨s, tables, vectors⟩ := by
  obtain ⟨_, root, _, wellFormed, _⟩ := Verifier.verify_eq_ok_iff.mp accepted
  exact ⟨alike, root, wellFormed.table.1⟩

theorem start_sound {s : Session} (started : Session.start v b = .ok s) : (start s).Sound v := by
  obtain ⟨root, accepted, rfl⟩ := start_eq_ok_iff.mp started
  exact sound_of_verify ⟨v, b, root, _⟩ ⟨rfl, rfl, rfl, rfl⟩ accepted [] []

theorem step_sound (h : m.Sound v) (change : Change) : (m.step change).Sound v := by
  cases change with
  | reverify =>
    rw [step]
    split
    · rename_i s again
      obtain ⟨root, accepted, rfl⟩ := (reverify_eq_ok_iff h).mp again
      exact sound_of_verify ⟨_, _, root, _⟩ h.again accepted m.tables m.vectors
    · exact h
  | root | nested | vector | field | slot | member | element | item =>
    exact ⟨h.alike, h.root, h.known⟩

theorem run_sound (h : m.Sound v) (changes : List Change) : (m.run changes).Sound v := by
  induction changes generalizing m with
  | nil => exact h
  | cons change changes ih => exact ih (step_sound h change)

end Editing

/-! ### Changes apart from the skeleton -/

namespace Editing
variable {v : Verifier} {b : Buffer} {root : Root} {m : Editing}

/-- What a run keeps if the places that it may change are apart. -/
structure Kept (v : Verifier) (b : Buffer) (root : Root) (m : Editing) : Prop where
  frozen : v.Frozen b root m.session.buffer
  texts : ∀ p n, v.Texts b root p n → b.SameAt m.session.buffer p n
  atRoot : m.session.root = root
  tables : ∀ t ∈ m.tables,
    t.schema = v.schema ∧ b.Reachable v.schema root t.position t.table
  vectors : ∀ w ∈ m.vectors, ∃ position id i, b.Reachable v.schema root position id ∧
    ∀ j < w.length, b.CellAt v.schema position id (.element i j)
      (w.start + j * w.type.width) w.type

theorem start_kept (v : Verifier) (b : Buffer) (root : Root) (fingerprint : UInt32) :
    (start ⟨v, b, root, fingerprint⟩).Kept v b root where
  frozen := ⟨rfl, fun _ _ _ _ _ _ => rfl⟩
  texts _ _ _ _ _ _ := rfl
  atRoot := rfl
  tables := by simp [start]
  vectors := by simp [start]

/-- A buffer that is kept is accepted. -/
theorem Kept.verify (h : m.Kept v b root) (accepted : v.verify b = .ok root) :
    v.verify m.session.buffer = .ok root := by
  have unchanged : v.Frozen b root b := ⟨rfl, fun _ _ _ _ _ _ => rfl⟩
  have texts := (Verifier.verify_iff_isText accepted unchanged).mp accepted
  apply (Verifier.verify_iff_isText accepted h.frozen).mpr
  intro p n text
  rw [Buffer.IsText, (h.texts p n text).slice? h.frozen.size]
  exact texts p n text

/-- A table that was asked for is one of the accepted buffer, with the same shape. -/
theorem Kept.table? (h : m.Kept v b root) {n : Nat} {t : MutableTable}
    (asked : m.table? n = some t) :
    t.schema = v.schema ∧ t.buffer = m.session.buffer ∧
      b.Reachable v.schema root t.position t.table ∧
        b.SameShape t.schema t.position t.table t.buffer := by
  obtain ⟨t', found, rfl⟩ := Option.map_eq_some_iff.mp asked
  obtain ⟨schema, reachable⟩ := h.tables t' (List.mem_of_getElem? found)
  refine ⟨schema, rfl, reachable, ?_⟩
  dsimp only
  rw [schema]
  exact h.frozen.shape reachable.isBelow

/-- What is not refused is written where the scalar is stored. -/
theorem Kept.exists_cell (h : m.Kept v b root) (accepted : v.verify b = .ok root) (sound : m.Sound v)
    {change : Change} {b' : Buffer} (given : m.result? change = some b') :
    ∃ position id c p value, m.Addresses change position id c value ∧
      b.Reachable v.schema root position id ∧ b.CellAt v.schema position id c p value.type ∧
        m.session.buffer.write? p value.bytes = some b' := by
  cases change with
  | root | nested | vector | reverify => cases given
  | field n i value =>
    obtain ⟨t, asked, set⟩ := Option.bind_eq_some_iff.mp given
    obtain ⟨schema, buffer, reachable, same⟩ := h.table? asked
    obtain ⟨p, cell, write⟩ := MutableTable.cellAt_of_setField? same set
    exact ⟨_, _, _, p, value, .field asked, reachable, schema ▸ cell, buffer ▸ write⟩
  | slot n slot value =>
    obtain ⟨t, asked, set⟩ := Option.bind_eq_some_iff.mp given
    obtain ⟨schema, buffer, reachable, same⟩ := h.table? asked
    obtain ⟨p, cell, write⟩ :=
      MutableTable.cellAt_of_setField? same (MutableTable.setSlot?_eq_some_iff.mp set).2.2
    exact ⟨_, _, _, p, value, .slot asked, reachable, schema ▸ cell, buffer ▸ write⟩
  | member n i j value =>
    obtain ⟨t, asked, set⟩ := Option.bind_eq_some_iff.mp given
    obtain ⟨schema, buffer, reachable, same⟩ := h.table? asked
    obtain ⟨p, cell, write⟩ := MutableTable.cellAt_of_setMember? same set
    exact ⟨_, _, _, p, value, .member asked, reachable, schema ▸ cell, buffer ▸ write⟩
  | element n i j value =>
    obtain ⟨t, asked, set⟩ := Option.bind_eq_some_iff.mp given
    obtain ⟨schema, buffer, reachable, same⟩ := h.table? asked
    obtain ⟨p, cell, write⟩ := MutableTable.cellAt_of_setElement? same set
    exact ⟨_, _, _, p, value, .element asked, reachable, schema ▸ cell, buffer ▸ write⟩
  | item n j value =>
    obtain ⟨w', set, rfl⟩ := Option.map_eq_some_iff.mp given
    obtain ⟨w, asked, set⟩ := Option.bind_eq_some_iff.mp set
    obtain ⟨type, inside, b', write, rfl⟩ := MutableVector.set?_eq_some_iff.mp set
    rw [buffer_of_vector? asked] at write
    obtain ⟨w₀, found, rfl⟩ := Option.map_eq_some_iff.mp asked
    obtain ⟨position, id, i, reachable, cells⟩ := h.vectors w₀ (List.mem_of_getElem? found)
    have cell := cells j inside
    have below := reachable.isBelow
    obtain ⟨u, read, start⟩ :=
      (Verifier.tableAt_of_below accepted below).exists_vector (h.frozen.shape below) cell
    have read' : TableView.field ⟨m.session.buffer, position⟩ m.session.verifier.schema id i =
        .vector u := by
      rw [sound.alike.schema]
      exact read
    refine ⟨position, id, _, _, value, .item asked read' (Nat.add_right_cancel start.symm),
      reachable, ?_, write⟩
    rw [type]
    exact cell

/-- A place that is apart is written. -/
private theorem Kept.write (h : m.Kept v b root) (accepted : v.verify b = .ok root)
    (apart : v.Apart b root) (sound : m.Sound v) (change : Change) :
    (m.write (m.result? change)).Kept v b root := by
  cases result : m.result? change with
  | none => exact ⟨h.frozen, h.texts, h.atRoot, h.tables, h.vectors⟩
  | some b' =>
    obtain ⟨position, id, c, p, value, _, reachable, cell, write⟩ :=
      h.exists_cell accepted sound result
    have stays (q k : Nat) (needed : v.Skeleton b root q k ∨ v.Texts b root q k)
        (same : b.SameAt m.session.buffer q k) : b.SameAt b' q k := by
      intro i low high
      have away := apart position id p _ reachable cell.place q k needed
      rw [← value.length_bytes] at away
      rw [Buffer.sameAt_of_write? write away i low high]
      exact same i low high
    exact ⟨⟨(Buffer.size_write? write).trans h.frozen.size,
        fun q k skeleton => stays q k (.inl skeleton) (h.frozen.same q k skeleton)⟩,
      fun q k text => stays q k (.inr text) (h.texts q k text), h.atRoot, h.tables, h.vectors⟩

theorem step_kept (accepted : v.verify b = .ok root) (apart : v.Apart b root) (sound : m.Sound v)
    (h : m.Kept v b root) (change : Change) : (m.step change).Kept v b root := by
  cases change with
  | root =>
    refine ⟨h.frozen, h.texts, h.atRoot, ?_, h.vectors⟩
    intro t member
    rcases List.mem_append.mp member with before | new
    · exact h.tables t before
    · rw [List.mem_singleton.mp new]
      refine ⟨sound.alike.schema, ?_⟩
      simp only [Session.rootTable, h.atRoot]
      exact .root
  | nested n i =>
    refine ⟨h.frozen, h.texts, h.atRoot, ?_, h.vectors⟩
    intro t member
    rcases List.mem_append.mp member with before | new
    · exact h.tables t before
    · obtain ⟨t', asked, read⟩ := Option.bind_eq_some_iff.mp (Option.mem_toList.mp new)
      obtain ⟨schema, _, reachable, same⟩ := h.table? asked
      obtain ⟨schema', reachable'⟩ := t'.reachable_of_nested? same (schema ▸ reachable) read
      exact ⟨schema'.trans schema, schema ▸ reachable'⟩
  | vector n i type =>
    refine ⟨h.frozen, h.texts, h.atRoot, h.tables, ?_⟩
    intro w member
    rcases List.mem_append.mp member with before | new
    · exact h.vectors w before
    · obtain ⟨t, asked, read⟩ := Option.bind_eq_some_iff.mp (Option.mem_toList.mp new)
      obtain ⟨schema, _, reachable, same⟩ := h.table? asked
      have read := (Option.filter_eq_some_iff.mp read).1
      exact ⟨_, _, i, reachable,
        schema ▸ (MutableTable.cellAt_of_vector? same read).2⟩
  | field n i value => exact h.write accepted apart sound (.field n i value)
  | slot n slot value => exact h.write accepted apart sound (.slot n slot value)
  | member n i j value => exact h.write accepted apart sound (.member n i j value)
  | element n i j value => exact h.write accepted apart sound (.element n i j value)
  | item n j value => exact h.write accepted apart sound (.item n j value)
  | reverify =>
    rw [step]
    split
    · rename_i s again
      obtain ⟨root', accepted', rfl⟩ := (reverify_eq_ok_iff sound).mp again
      obtain rfl : root = root' := Except.ok.inj ((h.verify accepted).symm.trans accepted')
      exact ⟨h.frozen, h.texts, rfl, h.tables, h.vectors⟩
    · exact h

theorem run_kept (accepted : v.verify b = .ok root) (apart : v.Apart b root) (sound : m.Sound v)
    (h : m.Kept v b root) (changes : List Change) : (m.run changes).Kept v b root := by
  induction changes generalizing m with
  | nil => exact h
  | cons change changes ih =>
    exact ih (step_sound sound change) (step_kept accepted apart sound h change)

end Editing

namespace Session
variable {v : Verifier} {b : Buffer} {s : Session} {changes : List Change} {m : Editing}

/-- When the bytes that are given up after any changes pass verification: exactly if checking them
again would succeed; as long as the skeleton is what it was, exactly if all strings are still texts;
and always if the places that can be changed are apart from both. -/
theorem verify_intoVerified (started : start v b = .ok s)
    (ran : (Editing.start s).run changes = m) :
    (∀ root, v.verify m.session.intoVerified.buffer = .ok root ↔
      ∃ s', m.session.reverify = .ok s' ∧ s'.root = root) ∧
      (v.Frozen b s.root m.session.intoVerified.buffer →
        (v.verify m.session.intoVerified.buffer = .ok s.root ↔
          ∀ p n, v.Texts b s.root p n → m.session.intoVerified.buffer.IsText p n)) ∧
        (v.Apart b s.root →
          v.verify m.session.intoVerified.buffer = .ok m.session.intoVerified.root ∧
            m.session.intoVerified.root = s.root) := by
  have sound := Editing.run_sound (Editing.start_sound started) changes
  rw [ran] at sound
  obtain ⟨root, accepted, rfl⟩ := Editing.start_eq_ok_iff.mp started
  refine ⟨?_, Verifier.verify_iff_isText accepted, ?_⟩
  · intro root'
    simp only [Editing.reverify_eq_ok_iff sound]
    constructor
    · exact fun again => ⟨_, ⟨root', again, rfl⟩, rfl⟩
    · intro h
      obtain ⟨_, ⟨root', again, rfl⟩, rfl⟩ := h
      exact again
  · intro apart
    have kept := Editing.run_kept accepted apart (Editing.start_sound started)
      (Editing.start_kept v b root _) changes
    rw [ran] at kept
    refine ⟨?_, kept.atRoot⟩
    rw [intoVerified, kept.atRoot]
    exact kept.verify accepted

def labelVerifier : Verifier := .standard {
  nameSpace := ""
  attributes := []
  enums := #[]
  structs := #[]
  tables := #[⟨"Label", #[.plain "count" (.scalar .int), .plain "name" .string]⟩]
  root := some 0 }

def label : Buffer := #[
  12, 0, 0, 0, 8, 0, 12, 0, 4, 0, 8, 0, 8, 0, 0, 0, 5, 0, 0, 0, 4, 0, 0, 0, 1, 0, 0, 0, 97, 0]

theorem label_accepted :
    ∃ s, start labelVerifier label = .ok s ∧ labelVerifier.Apart label s.root ∧
      labelVerifier.verify ((Editing.start s).run
        [.root, .field 0 0 (ScalarType.int.value 0)]).session.intoVerified.buffer = .ok s.root := by
  obtain ⟨s, started, root⟩ : ∃ s, start labelVerifier label = .ok s ∧ s.root = ⟨12, 0⟩ :=
    ⟨_, rfl, rfl⟩
  have apart : labelVerifier.Apart label s.root :=
    root ▸ Verifier.apart_of_checkApart [(12, 0)] (by decide)
  obtain ⟨accepted, same⟩ := (verify_intoVerified started rfl).2.2 apart
  exact ⟨s, started, apart, same ▸ accepted⟩

/-- A label whose count is stored in the same bytes as the reference to its name. -/
def sharedLabel : Buffer := #[
  12, 0, 0, 0, 8, 0, 8, 0, 4, 0, 4, 0, 8, 0, 0, 0, 4, 0, 0, 0, 1, 0, 0, 0, 97, 0]

theorem sharedLabel_refused :
    ∃ s, start labelVerifier sharedLabel = .ok s ∧
      labelVerifier.verify ((Editing.start s).run
        [.root, .field 0 0 (ScalarType.int.value 0)]).session.intoVerified.buffer =
          .error (.zeroOffset 16) :=
  ⟨_, rfl, rfl⟩

end Session
end FlatTable

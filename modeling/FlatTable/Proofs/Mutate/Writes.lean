import FlatTable.Proofs.Mutate.Changes

/-! What a change writes, whatever the bytes are by then: the bytes of its value, inside the buffer, at
the place where the table or the vector says that the value is stored. What is refused writes
nothing. -/
namespace FlatTable
open Layout

namespace Buffer

/-- The bytes were put at the position, inside the buffer, and everything else stayed. -/
structure Written (b b' : Buffer) (position : Nat) (bytes : List UInt8) : Prop where
  inside : Contract.checkWrite position bytes.length b.size = .ok ()
  size : b'.size = b.size
  here : b'.slice? position bytes.length = some bytes
  elsewhere : ∀ k, k < position ∨ position + bytes.length ≤ k → b'[k]? = b[k]?

theorem checkWrite_eq_ok_iff {position width size : Nat} :
    Contract.checkWrite position width size = .ok () ↔ position + width ≤ size := by
  unfold Contract.checkWrite
  split <;> simp_all

theorem written_of_write? {b b' : Buffer} {position : Nat} {bytes : List UInt8}
    (write : b.write? position bytes = some b') : b.Written b' position bytes where
  inside := checkWrite_eq_ok_iff.mpr (write?_isSome_iff.mp (by rw [write]; rfl))
  size := size_write? write
  here := slice?_of_write? write
  elsewhere k outside := by
    have same : b.SameAt b' k 1 := sameAt_of_write? write outside.symm
    exact same k (Nat.le_refl k) (Nat.lt_succ_self k)

end Buffer

namespace Editing
variable {v : Verifier} {b b' : Buffer} {m : Editing} {change : Change}

/-- The place that a change asks for in the bytes as they are, and the value for it. -/
inductive Target (m : Editing) : Change → Nat → Value → Prop where
  | field {n i holder : Nat} {t : MutableTable} {v : Value} (asked : m.table? n = some t)
      (place : t.buffer.fieldPosition? t.position i = some holder) :
      Target m (.field n i v) holder v
  | slot {n slot holder : Nat} {t : MutableTable} {v : Value} (asked : m.table? n = some t)
      (place : t.buffer.slotPosition? t.position slot = some holder) :
      Target m (.slot n slot v) holder v
  | member {n i j id holder offset : Nat} {t : MutableTable} {f : FieldDef} {d : StructDef}
      {v : Value} (asked : m.table? n = some t) (found : t.schema.field? t.table i = some f)
      (isStruct : f.type = .struct id) (declared : t.schema.structs[id]? = some d)
      (inside : d.offsets[j]? = some offset)
      (place : t.buffer.fieldPosition? t.position i = some holder) :
      Target m (.member n i j v) (holder + offset) v
  | element {n i j holder start length : Nat} {t : MutableTable} {v : Value}
      (asked : m.table? n = some t) (place : t.buffer.fieldPosition? t.position i = some holder)
      (leads : t.buffer.target? holder = some start)
      (counted : t.buffer.nat? start offsetSize = some length) (inside : j < length) :
      Target m (.element n i j v) (start + offsetSize + j * v.width) v
  | item {n j : Nat} {w : MutableVector} {v : Value} (asked : m.vector? n = some w)
      (inside : j < w.length) : Target m (.item n j v) (w.start + j * v.width) v

/-- The place of a field by the number of its entry is that by the entry itself. -/
private theorem slotOf_fieldOf {slot : Nat} (first : vtableHeader ≤ slot)
    (even : slot % slotSize = 0) : slotOf (fieldOf slot) = slot := by
  simp only [slotOf, fieldOf, vtableHeader, slotSize] at *
  omega

/-- What is not refused is written at its place. -/
theorem exists_target (given : m.result? change = some b') :
    ∃ position value, m.Target change position value ∧
      m.session.buffer.write? position value.bytes = some b' := by
  cases change with
  | root | nested | vector | reverify => cases given
  | field n i value =>
    obtain ⟨t, asked, set⟩ := Option.bind_eq_some_iff.mp given
    obtain ⟨_, holder, _, _, _, place, write⟩ := MutableTable.setField?_eq_some_iff.mp set
    exact ⟨holder, value, .field asked place, buffer_of_table? asked ▸ write⟩
  | slot n slot value =>
    obtain ⟨t, asked, set⟩ := Option.bind_eq_some_iff.mp given
    obtain ⟨first, even, set⟩ := MutableTable.setSlot?_eq_some_iff.mp set
    obtain ⟨_, holder, _, _, _, place, write⟩ := MutableTable.setField?_eq_some_iff.mp set
    rw [MutableTable.fieldPosition?, Buffer.fieldPosition?, slotOf_fieldOf first even] at place
    exact ⟨holder, value, .slot asked place, buffer_of_table? asked ▸ write⟩
  | member n i j value =>
    obtain ⟨t, asked, set⟩ := Option.bind_eq_some_iff.mp given
    obtain ⟨_, _, _, _, offset, holder, found, _, isStruct, declared, _, _, inside, place, write⟩ :=
      MutableTable.setMember?_eq_some_iff.mp set
    exact ⟨_, value, .member asked found isStruct declared inside place,
      buffer_of_table? asked ▸ write⟩
  | element n i j value =>
    obtain ⟨t, asked, set⟩ := Option.bind_eq_some_iff.mp given
    obtain ⟨w, read, type, inside, write⟩ := MutableTable.setElement?_eq_some_iff.mp set
    obtain ⟨_, _, _, holder, start, length, _, _, _, _, place, leads, counted, _, rfl⟩ :=
      MutableTable.vector?_eq_some_iff.mp read
    refine ⟨_, value, .element asked place leads counted inside, buffer_of_table? asked ▸ ?_⟩
    rw [Value.width, ← type]
    exact write
  | item n j value =>
    obtain ⟨w', set, rfl⟩ := Option.map_eq_some_iff.mp given
    obtain ⟨w, asked, set⟩ := Option.bind_eq_some_iff.mp set
    obtain ⟨type, inside, b', write, rfl⟩ := MutableVector.set?_eq_some_iff.mp set
    refine ⟨_, value, .item asked inside, buffer_of_vector? asked ▸ ?_⟩
    rw [Value.width, type]
    exact write

/-! ### Runs -/

theorem size_step (m : Editing) (change : Change) :
    (m.step change).session.buffer.size = m.session.buffer.size := by
  rw [buffer_step]
  cases result : m.result? change with
  | none => rfl
  | some b' =>
    obtain ⟨_, _, _, write⟩ := exists_target result
    exact Buffer.size_write? write

/-- What every run keeps in any bytes: the size, and with it that all elements of the vectors that
have been asked for are inside the buffer. -/
structure Bounded (b : Buffer) (m : Editing) : Prop where
  size : m.session.buffer.size = b.size
  vectors : ∀ w ∈ m.vectors, w.start + w.length * w.type.width ≤ b.size

theorem step_bounded (h : m.Bounded b) (change : Change) : (m.step change).Bounded b := by
  have size : (m.step change).session.buffer.size = b.size := (size_step m change).trans h.size
  refine ⟨size, ?_⟩
  cases change with
  | vector n i type =>
    intro w member
    rcases List.mem_append.mp member with before | new
    · exact h.vectors w before
    · obtain ⟨t, asked, read⟩ := Option.bind_eq_some_iff.mp (Option.mem_toList.mp new)
      obtain ⟨_, _, _, _, _, _, _, _, _, _, _, _, _, inside, rfl⟩ :=
        MutableTable.vector?_eq_some_iff.mp (Option.filter_eq_some_iff.mp read).1
      rw [buffer_of_table? asked, h.size] at inside
      exact inside
  | reverify =>
    rw [step]
    split <;> exact h.vectors
  | root | nested | field | slot | member | element | item => exact h.vectors

theorem run_bounded (h : m.Bounded b) (changes : List Change) : (m.run changes).Bounded b := by
  induction changes generalizing m with
  | nil => exact h
  | cons change changes ih => exact ih (step_bounded h change)

/-- An element of a vector that has been asked for can be replaced by any value of its type. -/
private theorem Bounded.item (h : m.Bounded b) {n j : Nat} {w : MutableVector} {value : Value}
    (asked : m.vector? n = some w) (type : value.type = w.type) (inside : j < w.length) :
    (m.result? (.item n j value)).isSome := by
  have upTo : (j + 1) * w.type.width ≤ w.length * w.type.width := Nat.mul_le_mul_right _ inside
  obtain ⟨w', found, same⟩ := Option.map_eq_some_iff.mp asked
  have whole := h.vectors w' (List.mem_of_getElem? found)
  subst same
  dsimp only at type inside upTo
  have room : w'.start + j * w'.type.width + value.bytes.length ≤ m.session.buffer.size := by
    rw [value.length_bytes, type, h.size]
    rw [Nat.succ_mul] at upTo
    omega
  obtain ⟨b', write⟩ := Option.isSome_iff_exists.mp (Buffer.write?_isSome_iff.mpr room)
  have set := MutableVector.set?_eq_some_iff (v := { w' with buffer := m.session.buffer })
    |>.mpr ⟨type, inside, b', write, rfl⟩
  rw [result?, asked, Option.bind_some, set]
  rfl

end Editing

namespace Session
variable {v : Verifier} {b : Buffer} {s : Session} {changes : List Change} {m : Editing}

/-- Whatever has been changed in an accepted buffer, a further change keeps the size; if it is refused
it leaves every byte, and if not it writes the value at the place that was asked for, inside the
buffer, and no other byte. No element of a vector that has been handed out is outside the buffer, so
replacing it is not refused. -/
theorem written_of_run (started : start v b = .ok s) (ran : (Editing.start s).run changes = m)
    (change : Change) :
    (m.step change).session.buffer.size = b.size ∧
      (m.result? change = none → (m.step change).session.buffer = m.session.buffer) ∧
      (∀ b', m.result? change = some b' → (m.step change).session.buffer = b' ∧
        ∃ position value, m.Target change position value ∧
          m.session.buffer.Written b' position value.bytes) ∧
      ∀ n j w value, change = .item n j value → m.vector? n = some w → value.type = w.type →
        j < w.length → (m.result? change).isSome := by
  obtain ⟨root, _, same⟩ := bind_eq_ok_iff.mp started
  obtain rfl := Except.ok.inj same
  have bounded := Editing.run_bounded (b := b) (m := Editing.start ⟨v, b, root, Crc32.checksum b⟩)
    ⟨rfl, by simp [Editing.start]⟩ changes
  rw [ran] at bounded
  have after := Editing.buffer_step m change
  refine ⟨(Editing.step_bounded bounded change).size, ?_, ?_, ?_⟩
  · intro refused
    rw [after, refused, Option.getD_none]
  · intro b' result
    obtain ⟨position, value, target, write⟩ := Editing.exists_target result
    exact ⟨by rw [after, result, Option.getD_some], position, value, target,
      Buffer.written_of_write? write⟩
  · rintro n j w value rfl asked type inside
    exact bounded.item asked type inside

/-- The first change also overwrites the reference to the name, which is stored in the same bytes, and
what it leaves would not be accepted again. -/
theorem sharedLabel_written :
    ∃ s, start labelVerifier sharedLabel = .ok s ∧
      let m := (Editing.start s).run [.root, .field 0 0 (ScalarType.int.value 0xFFFFFFFF)]
      (m.result? (.field 0 0 (ScalarType.int.value 7))).isSome ∧
        ∀ b', m.result? (.field 0 0 (ScalarType.int.value 7)) = some b' →
          ∃ position value, m.Target (.field 0 0 (ScalarType.int.value 7)) position value ∧
            m.session.buffer.Written b' position value.bytes := by
  obtain ⟨s, started⟩ : ∃ s, start labelVerifier sharedLabel = .ok s := ⟨_, rfl⟩
  refine ⟨s, started, ?_, fun b' result => ?_⟩
  · obtain rfl := Except.ok.inj started
    rfl
  · exact ((written_of_run started rfl (.field 0 0 (ScalarType.int.value 7))).2.2.1 b' result).2

end Session
end FlatTable

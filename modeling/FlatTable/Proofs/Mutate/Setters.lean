import FlatTable.Mutate.Table
import FlatTable.Proofs.Mutate.Shape

/-! When a change of a scalar is not refused: what the schema and the table must say of it, and what
is then written. -/
namespace FlatTable
open Layout

namespace Buffer

theorem size_write? {b b' : Buffer} {position : Nat} {bytes : List UInt8}
    (write : b.write? position bytes = some b') : b'.size = b.size := by
  unfold write? at write
  split at write
  · cases write
    simp
    omega
  · cases write

/-- What lies in front of the bytes that are written or behind them stays. -/
theorem sameAt_of_write? {b b' : Buffer} {position start length : Nat} {bytes : List UInt8}
    (write : b.write? position bytes = some b')
    (apart : position + bytes.length ≤ start ∨ start + length ≤ position) :
    b.SameAt b' start length := by
  intro k low high
  unfold write? at write
  split at write
  · rename_i inside
    cases write
    rw [Array.append_assoc]
    rcases apart with front | behind
    · rw [Array.getElem?_append_right (by simp; omega),
        Array.getElem?_append_right (by simp; omega), Array.getElem?_extract]
      simp only [Array.size_extract, List.size_toArray]
      split
      · congr 1
        omega
      · exact (Array.getElem?_eq_none (by omega)).symm
    · rw [Array.getElem?_append_left (by simp; omega), Array.getElem?_extract, if_pos (by omega),
        Nat.zero_add]
  · cases write

/-- What is written is there. -/
theorem slice?_of_write? {b b' : Buffer} {position : Nat} {bytes : List UInt8}
    (write : b.write? position bytes = some b') :
    b'.slice? position bytes.length = some bytes := by
  unfold write? at write
  split at write
  · rename_i inside
    cases write
    refine slice?_eq_some_iff.mpr ⟨rfl, (b.extract 0 position).toList,
      (b.extract (position + bytes.length) b.size).toList, by simp, ?_⟩
    simp
    omega
  · cases write

theorem write?_isSome_iff {b : Buffer} {position : Nat} {bytes : List UInt8} :
    (b.write? position bytes).isSome ↔ position + bytes.length ≤ b.size := by
  unfold write?
  split <;> simp_all

end Buffer

namespace MutableTable
variable {t t' : MutableTable} {b' : Buffer} {i j slot : Nat} {v : Value} {w : MutableVector}

theorem setField?_eq_some_iff :
    t.setField? i v = some b' ↔ ∃ f holder, t.schema.field? t.table i = some f ∧
      f.deprecated = false ∧ t.schema.scalarType? f.type = some v.type ∧
        t.fieldPosition? i = some holder ∧ t.buffer.write? holder v.bytes = some b' := by
  simp only [setField?, Option.bind_eq_bind, Option.bind_eq_some_iff]
  constructor
  · intro set
    obtain ⟨f, found, set⟩ := set
    split at set
    · cases set
    · rename_i allowed
      rw [not_or, Bool.not_eq_true, not_not] at allowed
      obtain ⟨holder, place, write⟩ := Option.bind_eq_some_iff.mp set
      exact ⟨f, holder, found, allowed.1, allowed.2, place, write⟩
  · intro given
    obtain ⟨f, holder, found, live, type, place, write⟩ := given
    exact ⟨f, found, by rw [if_neg (by simp [live, type]), place, Option.bind_some, write]⟩

theorem setSlot?_eq_some_iff :
    t.setSlot? slot v = some b' ↔ vtableHeader ≤ slot ∧ slot % slotSize = 0 ∧
      t.setField? (fieldOf slot) v = some b' := by
  unfold setSlot?
  split
  · rename_i refused
    simp only [reduceCtorEq, false_iff]
    omega
  · rename_i allowed
    rw [not_or, Nat.not_lt, not_not] at allowed
    simp [allowed]

theorem setMember?_eq_some_iff :
    t.setMember? i j v = some b' ↔ ∃ f id d m offset holder,
      t.schema.field? t.table i = some f ∧ f.deprecated = false ∧ f.type = .struct id ∧
        t.schema.structs[id]? = some d ∧ d.members[j]? = some m ∧ m.type = v.type ∧
          d.offsets[j]? = some offset ∧ t.fieldPosition? i = some holder ∧
            t.buffer.write? (holder + offset) v.bytes = some b' := by
  simp only [setMember?, Option.bind_eq_bind, Option.bind_eq_some_iff]
  constructor
  · intro set
    obtain ⟨f, found, d, struct, set⟩ := set
    split at set
    · cases set
    · rename_i allowed
      rw [not_or, Bool.not_eq_true, not_not, Option.map_eq_some_iff] at allowed
      obtain ⟨live, m, member, type⟩ := allowed
      obtain ⟨holder, place, set⟩ := Option.bind_eq_some_iff.mp set
      obtain ⟨offset, inside, write⟩ := Option.bind_eq_some_iff.mp set
      cases isStruct : f.type with
      | struct id =>
        rw [isStruct] at struct
        exact ⟨f, id, d, m, offset, holder, found, live, isStruct, struct, member, type, inside,
          place, write⟩
      | scalar | enum | string | vector | table =>
        rw [isStruct] at struct
        cases struct
  · intro given
    obtain ⟨f, id, d, m, offset, holder, found, live, isStruct, declared, member, type, inside,
      place, write⟩ := given
    refine ⟨f, found, d, by rw [isStruct]; exact declared, ?_⟩
    rw [if_neg (by simp [live, member, type]), place, inside]
    exact write

/-- The elements that a table says a vector has, all of them inside the buffer. -/
theorem vector?_eq_some_iff :
    t.vector? i = some w ↔ ∃ f e type holder target length,
      t.schema.field? t.table i = some f ∧ f.deprecated = false ∧ f.type = .vector e ∧
        t.schema.elementScalarType? e = some type ∧ t.fieldPosition? i = some holder ∧
          t.buffer.target? holder = some target ∧
            t.buffer.nat? target offsetSize = some length ∧
              target + offsetSize + length * type.width ≤ t.buffer.size ∧
                w = ⟨t.buffer, type, target + offsetSize, length⟩ := by
  simp only [vector?, Option.bind_eq_bind, Option.bind_eq_some_iff]
  constructor
  · intro read
    obtain ⟨f, found, read⟩ := read
    split at read
    · cases read
    · rename_i live
      obtain ⟨type, element, read⟩ := Option.bind_eq_some_iff.mp read
      obtain ⟨holder, place, read⟩ := Option.bind_eq_some_iff.mp read
      obtain ⟨target, leads, read⟩ := Option.bind_eq_some_iff.mp read
      obtain ⟨⟨length, start⟩, elements, made⟩ := Option.bind_eq_some_iff.mp read
      simp only [Buffer.elements?, Option.bind_eq_bind, Option.bind_eq_some_iff] at elements
      obtain ⟨length', counted, elements⟩ := elements
      split at elements
      · rename_i inside
        cases elements
        cases isVector : f.type with
        | vector e =>
          rw [isVector] at element
          exact ⟨f, e, type, holder, target, length, found, by simpa using live, isVector, element,
            place, leads, counted, inside, (Option.some.inj made).symm⟩
        | scalar | enum | string | struct | table =>
          rw [isVector] at element
          cases element
      · cases elements
  · intro given
    obtain ⟨f, e, type, holder, target, length, found, live, isVector, element, place, leads,
      counted, inside, rfl⟩ := given
    refine ⟨f, found, ?_⟩
    rw [if_neg (by simp [live]), isVector]
    simp only [elementTypeOf?, element, place, leads, Option.bind_some, Buffer.elements?, counted,
      Option.bind_eq_bind, if_pos inside, Option.pure_def]

theorem setElement?_eq_some_iff :
    t.setElement? i j v = some b' ↔ ∃ w, t.vector? i = some w ∧ w.type = v.type ∧ j < w.length ∧
      t.buffer.write? (w.start + j * w.type.width) v.bytes = some b' := by
  simp only [setElement?, Option.bind_eq_bind, Option.bind_eq_some_iff]
  refine exists_congr fun w => and_congr_right ?_
  intro _
  split
  · rename_i refused
    simp only [reduceCtorEq, false_iff]
    intro given
    obtain ⟨type, inside, _⟩ := given
    exact refused.elim (absurd type) (Nat.not_le.mpr inside)
  · rename_i allowed
    rw [not_or, not_not, Nat.not_le] at allowed
    simp [allowed]

theorem nested?_eq_some_iff :
    t.nested? i = some t' ↔ ∃ f id holder target, t.schema.field? t.table i = some f ∧
      f.type = .table id ∧ t.fieldPosition? i = some holder ∧
        t.buffer.target? holder = some target ∧ target < t.buffer.size ∧
          t' = { t with position := target, table := id } := by
  simp only [nested?, Option.bind_eq_bind, Option.bind_eq_some_iff]
  constructor
  · intro read
    obtain ⟨f, found, id, isTable, holder, place, target, leads, read⟩ := read
    split at read
    · rename_i inside
      cases type : f.type with
      | table nested =>
        rw [type] at isTable
        obtain rfl : nested = id := Option.some.inj isTable
        exact ⟨f, nested, holder, target, found, type, place, leads, inside,
          (Option.some.inj read).symm⟩
      | scalar | enum | string | vector | struct =>
        rw [type] at isTable
        cases isTable
    · cases read
  · intro given
    obtain ⟨f, id, holder, target, found, type, place, leads, inside, rfl⟩ := given
    exact ⟨f, found, id, by rw [type]; rfl, holder, place, target, leads, if_pos inside⟩

end MutableTable

namespace MutableVector

theorem set?_eq_some_iff {v v' : MutableVector} {i : Nat} {value : Value} :
    v.set? i value = some v' ↔ value.type = v.type ∧ i < v.length ∧ ∃ b',
      v.buffer.write? (v.start + i * v.type.width) value.bytes = some b' ∧
        v' = { v with buffer := b' } := by
  unfold set?
  split
  · rename_i allowed
    simp [allowed, eq_comm]
  · rename_i refused
    simp only [reduceCtorEq, false_iff]
    intro given
    exact refused ⟨given.1, given.2.1⟩

end MutableVector

namespace MutableTable
variable {t : MutableTable} {i j : Nat} {v : Value}

/-- An element is replaced as one of the vector that is asked for with its type. -/
theorem setElement?_eq_vectorOf? : t.setElement? i j v =
    (t.vectorOf? i v.type).bind fun w => (w.set? j v).map MutableVector.buffer := by
  ext b'
  rw [setElement?_eq_some_iff, Option.bind_eq_some_iff]
  refine exists_congr fun w => ?_
  rw [vectorOf?, Option.filter_eq_some_iff, beq_iff_eq, and_assoc]
  refine and_congr_right fun read => and_congr_right fun type => ?_
  obtain ⟨_, _, _, _, _, _, _, _, _, _, _, _, _, _, rfl⟩ := vector?_eq_some_iff.mp read
  rw [Option.map_eq_some_iff]
  constructor
  · rintro ⟨inside, write⟩
    exact ⟨_, MutableVector.set?_eq_some_iff.mpr ⟨type.symm, inside, b', write, rfl⟩, rfl⟩
  · rintro ⟨w', set, rfl⟩
    obtain ⟨_, inside, _, write, rfl⟩ := MutableVector.set?_eq_some_iff.mp set
    exact ⟨inside, write⟩
end MutableTable
end FlatTable

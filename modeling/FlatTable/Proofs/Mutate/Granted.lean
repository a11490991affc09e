import FlatTable.Proofs.Mutate.Isolation

/-! Which changes are refused is told by what the accepted buffer stores, whatever has been written since. -/
namespace FlatTable
open Layout

namespace Walk
variable {w : Walk} {position id p : Nat} {c : Cell} {type : ScalarType}

/-- The elements of a vector of scalars are inside the buffer. -/
theorem TableAt.vector_within {i holder target length : Nat} {f : FieldDef} {e : ElementType}
    (table : w.TableAt position id) (found : w.schema.field? id i = some f) (isVector : f.type = .vector e)
    (scalar : w.schema.elementScalarType? e = some type)
    (place : w.buffer.fieldPosition? position i = some holder)
    (leads : w.buffer.target? holder = some target)
    (counted : w.buffer.nat? target offsetSize = some length) :
    target + offsetSize + length * type.width ≤ w.buffer.size := by
  obtain ⟨_, stored⟩ := table.fieldWithin found place
  rw [isVector] at stored
  obtain ⟨target', length', refers, vector, _⟩ := stored
  obtain rfl : target = target' := Option.some.inj (leads.symm.trans refers.read)
  obtain rfl : length = length' := Option.some.inj (counted.symm.trans vector.counted)
  have width : w.schema.elementWidth e = type.width := by
    rw [Schema.elementWidth, scalar, Option.map_some, Option.getD_some]
  rw [← width]
  exact vector.inside

/-- What can be changed is inside the buffer. -/
theorem TableAt.cell_within (table : w.TableAt position id)
    (cell : w.buffer.CellAt w.schema position id c p type) : p + type.width ≤ w.buffer.size := by
  cases cell with
  | field found live scalar place =>
    obtain ⟨within, _⟩ := table.fieldWithin found place
    have width : w.schema.inlineWidth _ = type.width := Schema.inlineWidth_of_scalar scalar
    rwa [width] at within
  | @member i j holder offset f struct d m found live isStruct declared member inside place =>
    obtain ⟨within, _⟩ := table.fieldWithin found place
    have width : w.schema.inlineWidth f.type = d.size := by
      rw [isStruct, Schema.inlineWidth, declared, Option.map_some, Option.getD_some]
    have fits := StructDef.offset_add_width_le_size member inside
    omega
  | @element i j holder target length f e type found live isVector scalar place leads counted inside =>
    have room := table.vector_within found isVector scalar place leads counted
    have upTo : (j + 1) * type.width ≤ length * type.width := Nat.mul_le_mul_right _ inside
    rw [Nat.succ_mul] at upTo
    omega

end Walk

namespace Editing
variable {v : Verifier} {b : Buffer} {root : Root} {m : Editing} {n i j : Nat} {t : MutableTable} {value : Value}
  (h : m.Kept v b root) (accepted : v.verify b = .ok root) (asked : m.table? n = some t)
include h accepted asked

/-- A value of its type can be written wherever a scalar of the accepted buffer is. -/
private theorem Kept.write_isSome {c : Cell} {p : Nat}
    (cell : b.CellAt v.schema t.position t.table c p value.type) :
    (t.buffer.write? p value.bytes).isSome := by
  obtain ⟨_, buffer, reachable, _⟩ := h.table? asked
  have within := (Verifier.tableAt_of_below accepted reachable.isBelow).cell_within cell
  rw [Buffer.write?_isSome_iff, value.length_bytes, buffer, h.frozen.size]
  exact within

/-- A field is changed exactly if the accepted buffer stores it as a scalar of the value's type. -/
theorem Kept.field_isSome_iff : (m.result? (.field n i value)).isSome ↔
    ∃ p, b.CellAt v.schema t.position t.table (.field i) p value.type := by
  obtain ⟨schema, buffer, reachable, same⟩ := h.table? asked
  rw [result?, asked, Option.bind_some, Option.isSome_iff_exists]
  constructor
  · rintro ⟨b', set⟩
    obtain ⟨p, cell, _⟩ := MutableTable.cellAt_of_setField? same set
    exact ⟨p, schema ▸ cell⟩
  · rintro ⟨p, cell⟩
    obtain ⟨b', write⟩ := Option.isSome_iff_exists.mp (h.write_isSome accepted asked cell)
    cases cell with
    | field found live scalar place =>
      rw [← schema] at found scalar
      exact ⟨b', MutableTable.setField?_eq_some_iff.mpr
        ⟨_, p, found, live, scalar, (same.fieldPosition? found).trans place, write⟩⟩

/-- An element is changed exactly if the accepted buffer stores it as a scalar of the value's type. -/
theorem Kept.element_isSome_iff : (m.result? (.element n i j value)).isSome ↔
    ∃ p, b.CellAt v.schema t.position t.table (.element i j) p value.type := by
  obtain ⟨schema, buffer, reachable, same⟩ := h.table? asked
  rw [result?, asked, Option.bind_some, Option.isSome_iff_exists]
  constructor
  · rintro ⟨b', set⟩
    obtain ⟨p, cell, _⟩ := MutableTable.cellAt_of_setElement? same set
    exact ⟨p, schema ▸ cell⟩
  · rintro ⟨p, cell⟩
    obtain ⟨b', write⟩ := Option.isSome_iff_exists.mp (h.write_isSome accepted asked cell)
    cases cell with
    | @element _ _ holder target length f e _ found live isVector scalar place leads counted inside =>
      have room := (Verifier.tableAt_of_below accepted reachable.isBelow).vector_within found isVector
        scalar place leads counted
      have size : t.buffer.size = b.size := buffer ▸ h.frozen.size
      rw [← schema] at found scalar
      have holds : b.Holds t.schema t.position t.table f.type holder := .field found place
      rw [isVector] at holds
      have read := MutableTable.vector?_eq_some_iff.mpr
        ⟨f, e, _, holder, target, length, found, live, isVector, scalar,
          (same.fieldPosition? found).trans place, (same.target? holds rfl).trans leads,
          (same.vectorLength holds leads).trans counted, size ▸ room, rfl⟩
      exact ⟨b', MutableTable.setElement?_eq_some_iff.mpr ⟨_, read, rfl, inside, write⟩⟩

end Editing
end FlatTable

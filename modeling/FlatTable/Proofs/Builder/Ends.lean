import FlatTable.Proofs.Builder.Accepted
import FlatTable.Proofs.Verify.Truncated

/-! The end of a finished buffer. Nothing follows the object that was created first but padding, which
is cut off, so where references lead to that object they lead to the last byte. -/
namespace FlatTable
open Layout Build

namespace Builder
variable {s : Schema} {b b' : Builder} {type : FieldType} {rev : Nat}

/-- What starts at distance `rev` is of this type, and it is the last object in front of the padding, or
references lead from it to the last one. -/
inductive Ends (b : Builder) (s : Schema) : FieldType → Nat → Prop
  | string {rev : Nat} {text : String} (laid : b.StringLaid rev text)
      (last : b.trailingPad + (offsetSize + ((Text.encodeUtf8 text).length + 1)) = rev) :
      Ends b s .string rev
  | scalars {e : ElementType} {t : ScalarType} {rev : Nat} {items : List Value}
      (scalar : s.elementScalarType? e = some t) (laid : b.ScalarsLaid rev t items)
      (last : b.trailingPad + (offsetSize + items.length * t.width) = rev) : Ends b s (.vector e) rev
  | references {e : ElementType} {rev : Nat} {targets : List Nat}
      (reference : s.elementScalarType? e = none) (laid : b.ReferencesLaid rev targets)
      (last : b.trailingPad + (offsetSize + targets.length * offsetSize) = rev) :
      Ends b s (.vector e) rev
  | stringElement {rev target : Nat} {targets : List Nat} (laid : b.ReferencesLaid rev targets)
      (member : target ∈ targets) (below : Ends b s .string target) : Ends b s (.vector .string) rev
  | tableElement {id rev target : Nat} {targets : List Nat} (laid : b.ReferencesLaid rev targets)
      (member : target ∈ targets) (below : Ends b s (.table id) target) :
      Ends b s (.vector (.table id)) rev
  | table {rev start : Nat} {a : TableArgs} {slots : List Nat} (laid : b.TableLaid rev a start slots)
      (last : b.trailingPad = start) : Ends b s (.table a.table) rev
  | field {rev start i : Nat} {a : TableArgs} {slots : List Nat} {f : FieldDef} {p : Placed}
      (laid : b.TableLaid rev a start slots) (schema : a.schema = s)
      (found : s.field? a.table i = some f) (set : a.settings[i]? = some (some (.reference p)))
      (below : Ends b s f.type p.rev) : Ends b s (.table a.table) rev

/-- What is held at a distance is used. -/
private theorem Held.used_ne_nil {bytes : List UInt8} (held : b.Held rev bytes)
    (nonempty : 0 < bytes.length) : b.used.bytes ≠ [] := by
  have before := held.before
  exact List.ne_nil_of_length_pos (Nat.lt_of_lt_of_le (by omega) held.le)

/-- More in front does not change what is last. -/
theorem Ends.kept (ends : b.Ends s type rev) (keeps : b.Keeps b') : b'.Ends s type rev := by
  have word (n : Nat) : 0 < (Bytes.encode offsetSize n).length := by
    rw [Bytes.length_encode]
    decide
  induction ends with
  | string laid last =>
    rw [← keeps.trailingPad (laid.held.left.used_ne_nil (word _))] at last
    exact .string (laid.kept keeps) last
  | scalars scalar laid last =>
    rw [← keeps.trailingPad (laid.counted.used_ne_nil (word _))] at last
    exact .scalars scalar (laid.kept keeps) last
  | references reference laid last =>
    rw [← keeps.trailingPad (laid.counted.used_ne_nil (word _))] at last
    exact .references reference (laid.kept keeps) last
  | stringElement laid member _ ih => exact .stringElement (laid.kept keeps) member ih
  | tableElement laid member _ ih => exact .tableElement (laid.kept keeps) member ih
  | table laid last =>
    rw [← keeps.trailingPad (laid.back.used_ne_nil (word _))] at last
    exact .table (laid.kept keeps) last
  | field laid schema found set _ ih => exact .field (laid.kept keeps) schema found set ih

/-- A table that is created ends where the buffer ends, or refers to what does: there was nothing before
it, or one of the objects that it refers to does. -/
theorem createTable_ends (valid : s.Valid) {a : TableArgs} (fits : a.Fits s) (sound : b.Sound)
    (ends : b.used.bytes = [] ∨ ∃ i f p, s.field? a.table i = some f ∧
      a.settings[i]? = some (some (.reference p)) ∧ b.Ends s f.type p.rev) {r : Ref .table}
    (ran : runFrom b (createTable a) = (.ok r, b')) : b'.Ends s (.table a.table) r.rev := by
  obtain ⟨creates, ⟨slots, laid, _⟩, _⟩ := (createTable_does valid.filled fits sound).of_ok ran
  rcases ends with empty | ⟨i, f, p, found, set, below⟩
  · have before := laid.before
    rw [empty] at before laid
    exact .table laid (Nat.le_zero.mp before)
  · exact .field laid fits.schema found set (below.kept creates.keeps)

/-- Something of `size` bytes in front of the padding ends where the finished buffer ends. -/
private theorem positionOf_add {size : Nat} (inFront : rev ≤ b.used.bytes.length)
    (last : b.trailingPad + size = rev) : b.positionOf rev + size = b.finished.data.size := by
  rw [size_data]
  simp only [positionOf]
  omega

/-- The reference to an element of a vector is found behind those in front of it. -/
private theorem ReferencesLaid.target? {target : Nat} {targets : List Nat}
    (laid : b.ReferencesLaid rev targets) (sound : b.Sound) (member : target ∈ targets) :
    ∃ i < targets.length, b.finished.data.target? (b.positionOf rev + offsetSize + i * offsetSize) =
      some (b.positionOf target) := by
  obtain ⟨i, found⟩ := List.mem_iff_getElem?.mp member
  obtain ⟨refers, place⟩ := laid.element found
  exact ⟨i, (List.getElem?_eq_some_iff.mp found).1, by rw [← place, refers.target? sound]⟩

/-- Where the last object is reached, references touch the last byte of the finished buffer. -/
theorem Ends.touches (ends : b.Ends s type rev) (sound : b.Sound) :
    b.finished.data.Touches s type (b.positionOf rev) b.finished.data.size := by
  induction ends with
  | string laid last =>
    rw [← positionOf_add laid.held.le last, ← Nat.add_assoc]
    exact .string (laid.counted sound)
  | @scalars e t rev items scalar laid last =>
    have width : s.elementWidth e = t.width := by
      rw [Schema.elementWidth, scalar, Option.map_some, Option.getD_some]
    have touches : b.finished.data.Touches s (.vector e) (b.positionOf rev) _ :=
      .vector (laid.nat? sound)
    rwa [width, Nat.add_assoc, positionOf_add laid.counted.le last] at touches
  | @references e rev targets reference laid last =>
    have width : s.elementWidth e = offsetSize := by
      rw [Schema.elementWidth, reference, Option.map_none, Option.getD_none]
    have touches : b.finished.data.Touches s (.vector e) (b.positionOf rev) _ :=
      .vector (laid.nat? sound)
    rwa [width, Nat.add_assoc, positionOf_add laid.counted.le last] at touches
  | stringElement laid member _ ih =>
    obtain ⟨i, inside, leads⟩ := laid.target? sound member
    exact .stringElement (laid.nat? sound) inside leads ih
  | tableElement laid member _ ih =>
    obtain ⟨i, inside, leads⟩ := laid.target? sound member
    exact .tableElement (laid.nat? sound) inside leads ih
  | @table rev start a slots laid last =>
    have room := laid.room
    rw [← positionOf_add laid.back.le (show b.trailingPad + (rev - start) = rev by omega)]
    exact .table laid.vtable? laid.size
  | @field rev start i a slots f p laid schema found set below ih =>
    rcases laid.fieldPosition?_of_set set with ⟨stored, g, field, fits, _, fieldLaid, place⟩ | h
    · rw [schema] at field fits fieldLaid
      obtain rfl : f = g := Option.some.inj (found.symm.trans field)
      exact .field found place ((fieldLaid.refers fits).target? sound) ih
    · obtain ⟨⟨v, isScalar, _⟩, _⟩ := h
      cases isScalar

end Builder
end FlatTable

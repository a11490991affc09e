import FlatTable.Proofs.Verify.Accept

/-! Buffers that are cut off. What is read of the part that is left is what is read of the whole, so a
walk that accepts the part has met all bytes of the whole that references lead to. -/
namespace FlatTable
open Layout

namespace Buffer

section
variable {cut b : Buffer} (front : cut.toList <+: b.toList) {position width length n : Nat}
include front

theorem slice?_of_cut {bytes : List UInt8} (read : cut.slice? position length = some bytes) :
    b.slice? position length = some bytes := by
  obtain ⟨rest, whole⟩ := front
  obtain ⟨size, before, behind, split, at'⟩ := slice?_eq_some_iff.mp read
  exact slice?_eq_some_iff.mpr
    ⟨size, before, behind ++ rest, by rw [← whole, split]; simp only [List.append_assoc], at'⟩

theorem nat?_of_cut (read : cut.nat? position width = some n) :
    b.nat? position width = some n := by
  obtain ⟨bytes, slice, rfl⟩ := nat?_eq_some_iff.mp read
  exact nat?_eq_some_iff.mpr ⟨bytes, slice?_of_cut front slice, rfl⟩

/-- What the whole holds there is what is read in front of the cut. -/
theorem eq_of_cut {m : Nat} (read : cut.nat? position width = some m)
    (whole : b.nat? position width = some n) : m = n :=
  Option.some.inj ((nat?_of_cut front read).symm.trans whole)

theorem target?_of_cut {target : Nat} (read : cut.target? position = some target) :
    b.target? position = some target := by
  obtain ⟨distance, counted, rfl⟩ := Option.map_eq_some_iff.mp read
  rw [target?, nat?_of_cut front counted, Option.map_some]

theorem vtable?_of_cut {vtable : Nat} (read : cut.vtable? position = some vtable) :
    b.vtable? position = some vtable := by
  obtain ⟨v, back, inside⟩ := Option.bind_eq_some_iff.mp read
  obtain ⟨n, counted, rfl⟩ := Option.map_eq_some_iff.mp back
  rw [vtable?, value?, nat?_of_cut front counted, Option.map_some, Option.bind_some, inside]

end

/-- Of something of this type that is at `position`, or of what references in it lead to, bytes end at
`stop`. -/
inductive Touches (b : Buffer) (s : Schema) : FieldType → Nat → Nat → Prop
  | string {position length : Nat} (counted : b.nat? position offsetSize = some length) :
      Touches b s .string position (position + offsetSize + (length + 1))
  | vector {e : ElementType} {position length : Nat}
      (counted : b.nat? position offsetSize = some length) :
      Touches b s (.vector e) position (position + offsetSize + length * s.elementWidth e)
  | stringElement {position length i target stop : Nat}
      (counted : b.nat? position offsetSize = some length) (inside : i < length)
      (leads : b.target? (position + offsetSize + i * offsetSize) = some target)
      (below : Touches b s .string target stop) : Touches b s (.vector .string) position stop
  | tableElement {id position length i target stop : Nat}
      (counted : b.nat? position offsetSize = some length) (inside : i < length)
      (leads : b.target? (position + offsetSize + i * offsetSize) = some target)
      (below : Touches b s (.table id) target stop) : Touches b s (.vector (.table id)) position stop
  | table {id position vtable size : Nat} (read : b.vtable? position = some vtable)
      (counted : b.nat? (vtable + slotSize) slotSize = some size) :
      Touches b s (.table id) position (position + size)
  | field {id position i holder target stop : Nat} {f : FieldDef} (found : s.field? id i = some f)
      (place : b.fieldPosition? position i = some holder) (leads : b.target? holder = some target)
      (below : Touches b s f.type target stop) : Touches b s (.table id) position stop

end Buffer

namespace Walk
variable {w : Walk} {b : Buffer}

/-- What is at `position` is of this type, as far as the walk checks it. -/
def Passes (w : Walk) : FieldType → Nat → Prop
  | .string, position => ∃ bytes, w.StringAt position bytes
  | .vector e, position => ∃ length, w.VectorAt e position length ∧ w.ElementsAt e position length ∧
      ∀ id, e = .table id → ∀ i < length, ∀ target,
        w.RefersTo (position + offsetSize + i * offsetSize) target → w.WellFormed target id
  | .table id, position => w.WellFormed position id
  | .scalar _, _ | .enum _, _ | .struct _, _ => True

/-- What a field of a well-formed table refers to passes. -/
theorem WellFormed.field {position id i holder : Nat} {f : FieldDef} (h : w.WellFormed position id)
    (found : w.schema.field? id i = some f)
    (place : w.buffer.fieldPosition? position i = some holder) (compound : f.type.isInline = false) :
    ∃ target, w.RefersTo holder target ∧ w.Passes f.type target := by
  obtain ⟨⟨_, vtable, vtableSize, size, v, fields⟩, nested⟩ := h
  have stored := (fields i f holder found place).field
  have below (c : Nat × Nat) (member : c ∈ w.buffer.nestedAt f.type holder) :=
    nested c (Buffer.mem_nested.mpr ⟨i, f, holder, found, place, member⟩)
  generalize f.type = type at stored below compound
  have table {target h' : Nat} (refers : w.RefersTo h' target) :
      w.buffer.table? h' = some ⟨w.buffer, target⟩ :=
    Buffer.table?_eq_some_iff.mpr ⟨refers.read, refers.inside, rfl⟩
  cases type with
  | scalar t | enum e | struct d => cases compound
  | string =>
    obtain ⟨target, bytes, refers, string⟩ := stored
    exact ⟨target, refers, bytes, string⟩
  | table nested =>
    obtain ⟨target, refers⟩ := stored
    exact ⟨target, refers, below (target, nested)
      (Buffer.mem_tablesAt.mpr ⟨holder, List.mem_singleton_self _, table refers, rfl⟩)⟩
  | vector e =>
    obtain ⟨target, length, refers, vector, elements⟩ := stored
    refine ⟨target, refers, length, vector, elements, ?_⟩
    rintro nested rfl i inside item refersItem
    refine below (item, nested) (Buffer.mem_tablesAt.mpr ⟨_, ?_, table refersItem, rfl⟩)
    exact (Buffer.mem_elementHolders refers.read vector.counted).mpr ⟨i, inside, rfl⟩

/-- The whole has its fields where the part has them, as the vtable is in the part. -/
theorem VtableAt.fieldPosition?_of_cut {position vtable vtableSize size i holder : Nat}
    (v : w.VtableAt position vtable vtableSize size) (front : w.buffer.toList <+: b.toList)
    (place : b.fieldPosition? position i = some holder) :
    w.buffer.fieldPosition? position i = some holder := by
  have inside := v.vtableInside
  simp only [Buffer.fieldPosition?, Buffer.slotPosition?, v.read, v.vtableCounted,
    Buffer.vtable?_of_cut front v.read, Buffer.nat?_of_cut front v.vtableCounted,
    Option.bind_eq_bind, Option.bind_some] at place ⊢
  split at place
  · cases place
  · rename_i behind
    rw [if_neg behind]
    split at place
    · rename_i known
      have room : vtable + slotOf i + slotSize ≤ w.buffer.size := by omega
      obtain ⟨distance, entry⟩ := Buffer.nat?_of_le room
      rw [if_pos known, entry]
      rwa [Buffer.nat?_of_cut front entry] at place
    · cases place

/-- What passes in the part reaches no further in the whole. -/
theorem le_of_touches {type : FieldType} {position stop : Nat}
    (touches : b.Touches w.schema type position stop) (front : w.buffer.toList <+: b.toList)
    (passes : w.Passes type position) : stop ≤ w.buffer.size := by
  induction touches with
  | string counted =>
    obtain ⟨bytes, string⟩ := passes
    obtain rfl := Buffer.eq_of_cut front string.counted counted
    have last := (Array.getElem?_eq_some_iff.mp string.terminated).1
    omega
  | vector counted =>
    obtain ⟨length, vector, _⟩ := passes
    obtain rfl := Buffer.eq_of_cut front vector.counted counted
    exact vector.inside
  | @stringElement position length i target stop counted inside leads below ih =>
    obtain ⟨length, vector, elements, _⟩ := passes
    obtain rfl := Buffer.eq_of_cut front vector.counted counted
    obtain ⟨target', bytes, refers, string⟩ := elements i inside
    obtain rfl := Option.some.inj ((Buffer.target?_of_cut front refers.read).symm.trans leads)
    exact ih ⟨bytes, string⟩
  | @tableElement id position length i target stop counted inside leads below ih =>
    obtain ⟨length, vector, elements, tables⟩ := passes
    obtain rfl := Buffer.eq_of_cut front vector.counted counted
    obtain ⟨target', refers⟩ := elements i inside
    obtain rfl := Option.some.inj ((Buffer.target?_of_cut front refers.read).symm.trans leads)
    exact ih (tables id rfl i inside target' refers)
  | table read counted =>
    obtain ⟨_, vtable, vtableSize, size, v, _⟩ := passes.table
    obtain rfl := Option.some.inj ((Buffer.vtable?_of_cut front v.read).symm.trans read)
    obtain rfl := Buffer.eq_of_cut front v.counted counted
    exact v.inside
  | @field id position i holder target stop f found place leads below ih =>
    obtain ⟨_, vtable, vtableSize, size, v, _⟩ := passes.table
    have compound : f.type.isInline = false := by
      generalize f.type = type at below
      cases below <;> rfl
    obtain ⟨target', refers, item⟩ :=
      passes.field found (v.fieldPosition?_of_cut front place) compound
    obtain rfl := Option.some.inj ((Buffer.target?_of_cut front refers.read).symm.trans leads)
    exact ih item

end Walk

namespace Verifier
variable {v : Verifier} {cut b : Buffer} {id position stop : Nat}

/-- A buffer that is cut off before the last byte that is touched is not accepted. -/
theorem accepts_eq_false_of_cut (front : cut.toList <+: b.toList) (isRoot : v.root? = some id)
    (leads : b.target? 0 = some position) (touches : b.Touches v.schema (.table id) position stop)
    (short : cut.size < stop) : v.accepts cut = false := by
  unfold accepts
  cases verdict : v.verify cut with
  | error e => rfl
  | ok root =>
    obtain ⟨_, known, refers, wellFormed, _⟩ := verify_eq_ok_iff.mp verdict
    obtain rfl := Option.some.inj (known.symm.trans isRoot)
    have read : b.target? 0 = some root.position := Buffer.target?_of_cut front refers.read
    obtain rfl := Option.some.inj (read.symm.trans leads)
    have inside := (v.walk cut).le_of_touches touches front wellFormed
    exact absurd short (Nat.not_lt.mpr inside)

end Verifier
end FlatTable

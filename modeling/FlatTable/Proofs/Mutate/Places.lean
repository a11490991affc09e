import FlatTable.Proofs.Mutate.Setters
import FlatTable.Proofs.Mutate.Skeleton

/-! The places of a buffer that can be changed, and what a change of them leaves as it was. -/
namespace FlatTable
open Layout

inductive Cell where
  | field (i : Nat)
  | member (i j : Nat)
  | element (i j : Nat)
  deriving DecidableEq

namespace Buffer

variable (b : Buffer) (s : Schema)

inductive Place (position id : Nat) : Nat → Nat → Prop
  | field {i holder : Nat} {f : FieldDef} {type : ScalarType} (found : s.field? id i = some f)
      (live : f.deprecated = false) (scalar : s.scalarType? f.type = some type)
      (place : b.fieldPosition? position i = some holder) : Place position id holder type.width
  | member {i j holder offset : Nat} {f : FieldDef} {struct : Nat} {d : StructDef} {m : Member}
      (found : s.field? id i = some f) (live : f.deprecated = false)
      (isStruct : f.type = .struct struct) (declared : s.structs[struct]? = some d)
      (member : d.members[j]? = some m) (inside : d.offsets[j]? = some offset)
      (place : b.fieldPosition? position i = some holder) :
      Place position id (holder + offset) m.type.width
  | element {i j holder target length : Nat} {f : FieldDef} {e : ElementType} {type : ScalarType}
      (found : s.field? id i = some f) (live : f.deprecated = false) (isVector : f.type = .vector e)
      (scalar : s.elementScalarType? e = some type)
      (place : b.fieldPosition? position i = some holder) (leads : b.target? holder = some target)
      (counted : b.nat? target offsetSize = some length) (inside : j < length) :
      Place position id (target + offsetSize + j * type.width) type.width

inductive CellAt (position id : Nat) : Cell → Nat → ScalarType → Prop
  | field {i holder : Nat} {f : FieldDef} {type : ScalarType} (found : s.field? id i = some f)
      (live : f.deprecated = false) (scalar : s.scalarType? f.type = some type)
      (place : b.fieldPosition? position i = some holder) :
      CellAt position id (.field i) holder type
  | member {i j holder offset : Nat} {f : FieldDef} {struct : Nat} {d : StructDef} {m : Member}
      (found : s.field? id i = some f) (live : f.deprecated = false)
      (isStruct : f.type = .struct struct) (declared : s.structs[struct]? = some d)
      (member : d.members[j]? = some m) (inside : d.offsets[j]? = some offset)
      (place : b.fieldPosition? position i = some holder) :
      CellAt position id (.member i j) (holder + offset) m.type
  | element {i j holder target length : Nat} {f : FieldDef} {e : ElementType} {type : ScalarType}
      (found : s.field? id i = some f) (live : f.deprecated = false) (isVector : f.type = .vector e)
      (scalar : s.elementScalarType? e = some type)
      (place : b.fieldPosition? position i = some holder) (leads : b.target? holder = some target)
      (counted : b.nat? target offsetSize = some length) (inside : j < length) :
      CellAt position id (.element i j) (target + offsetSize + j * type.width) type

/-- The tables that fields of tables lead to from the root on. -/
inductive Reachable (root : Root) : Nat → Nat → Prop
  | root : Reachable root root.position root.table
  | nested {position id i holder target nested : Nat} {f : FieldDef}
      (before : Reachable root position id) (found : s.field? id i = some f)
      (isTable : f.type = .table nested) (place : b.fieldPosition? position i = some holder)
      (leads : b.target? holder = some target) (inside : target < b.size) :
      Reachable root target nested

variable {b s}

theorem CellAt.place {position id p : Nat} {c : Cell} {type : ScalarType}
    (h : b.CellAt s position id c p type) : b.Place s position id p type.width := by
  cases h with
  | field found live scalar place => exact .field found live scalar place
  | member found live isStruct declared member inside place =>
    exact .member found live isStruct declared member inside place
  | element found live isVector scalar place leads counted inside =>
    exact .element found live isVector scalar place leads counted inside

theorem Place.exists_cellAt {position id p n : Nat} (h : b.Place s position id p n) :
    ∃ c type, b.CellAt s position id c p type ∧ type.width = n := by
  cases h with
  | field found live scalar place => exact ⟨_, _, .field found live scalar place, rfl⟩
  | member found live isStruct declared member inside place =>
    exact ⟨_, _, .member found live isStruct declared member inside place, rfl⟩
  | element found live isVector scalar place leads counted inside =>
    exact ⟨_, _, .element found live isVector scalar place leads counted inside, rfl⟩

theorem Reachable.isBelow {root : Root} {position id : Nat} (h : b.Reachable s root position id) :
    b.Below s (root.position, root.table) (position, id) := by
  induction h with
  | root => exact .refl
  | nested _ found isTable place leads inside ih =>
    refine ih.tail (mem_nested.mpr ⟨_, _, _, found, place, ?_⟩)
    rw [isTable]
    exact mem_tablesAt.mpr ⟨_, by simp, table?_eq_some_iff.mpr ⟨leads, inside, rfl⟩, rfl⟩

end Buffer

namespace MutableTable
variable {t t' : MutableTable} {b b' : Buffer} {i : Nat} {v : Value}

section
variable (same : b.SameShape t.schema t.position t.table t.buffer)
include same

/-- A field is written where it is in the buffer whose shape is kept. -/
theorem cellAt_of_setField? (set : t.setField? i v = some b') :
    ∃ p, b.CellAt t.schema t.position t.table (.field i) p v.type ∧
      t.buffer.write? p v.bytes = some b' := by
  obtain ⟨f, holder, found, live, type, place, write⟩ := setField?_eq_some_iff.mp set
  rw [fieldPosition?, same.fieldPosition? found] at place
  exact ⟨holder, .field found live type place, write⟩

theorem cellAt_of_setMember? {j : Nat} (set : t.setMember? i j v = some b') :
    ∃ p, b.CellAt t.schema t.position t.table (.member i j) p v.type ∧
      t.buffer.write? p v.bytes = some b' := by
  obtain ⟨f, id, d, m, offset, holder, found, live, isStruct, declared, member, type, inside, place,
    write⟩ := setMember?_eq_some_iff.mp set
  rw [fieldPosition?, same.fieldPosition? found] at place
  exact ⟨holder + offset, type ▸ .member found live isStruct declared member inside place, write⟩

/-- The elements of a vector are where they are in the buffer whose shape is kept. -/
theorem cellAt_of_vector? {w : MutableVector} (read : t.vector? i = some w) :
    w.buffer = t.buffer ∧ ∀ j < w.length,
      b.CellAt t.schema t.position t.table (.element i j) (w.start + j * w.type.width) w.type := by
  obtain ⟨f, e, type, holder, target, length, found, live, isVector, element, place, leads, counted,
    _, rfl⟩ := vector?_eq_some_iff.mp read
  rw [fieldPosition?, same.fieldPosition? found] at place
  have holds : b.Holds t.schema t.position t.table f.type holder := .field found place
  rw [isVector] at holds
  rw [same.target? holds rfl] at leads
  rw [same.vectorLength holds leads] at counted
  exact ⟨rfl, fun j inside => .element found live isVector element place leads counted inside⟩

theorem cellAt_of_setElement? {j : Nat} (set : t.setElement? i j v = some b') :
    ∃ p, b.CellAt t.schema t.position t.table (.element i j) p v.type ∧
      t.buffer.write? p v.bytes = some b' := by
  obtain ⟨w, read, type, inside, write⟩ := setElement?_eq_some_iff.mp set
  exact ⟨_, type ▸ (cellAt_of_vector? same read).2 j inside, write⟩

/-- A table that a field leads to is the one that it leads to in the buffer whose shape is kept. -/
theorem reachable_of_nested? {root : Root} (before : b.Reachable t.schema root t.position t.table)
    (read : t.nested? i = some t') :
    t'.schema = t.schema ∧ b.Reachable t.schema root t'.position t'.table := by
  obtain ⟨f, id, holder, target, found, type, place, leads, inside, rfl⟩ :=
    nested?_eq_some_iff.mp read
  rw [fieldPosition?, same.fieldPosition? found] at place
  have holds : b.Holds t.schema t.position t.table f.type holder := .field found place
  rw [type] at holds
  rw [same.target? holds rfl] at leads
  exact ⟨rfl, before.nested found type place leads (same.size ▸ inside)⟩

end

/-- What a path leads to is reached, and keeps the buffer. -/
private theorem reachable_of_follow? {root : Root} {path : List Nat}
    (before : t.buffer.Reachable t.schema root t.position t.table) (read : t.follow? path = some t') :
    t'.buffer = t.buffer ∧ t.buffer.Reachable t.schema root t'.position t'.table := by
  induction path generalizing t with
  | nil =>
    obtain rfl := Option.some.inj read
    exact ⟨rfl, before⟩
  | cons i path ih =>
    rw [follow?, List.foldlM_cons, Option.bind_eq_bind, Option.bind_eq_some_iff] at read
    obtain ⟨next, first, rest⟩ := read
    obtain ⟨f, id, holder, target, found, type, place, leads, inside, rfl⟩ := nested?_eq_some_iff.mp first
    have after : t.buffer.Reachable t.schema root target id := before.nested found type place leads inside
    exact ih (t := { t with position := target, table := id }) after rest

/-- The tables that are reached are those that paths lead to. -/
theorem reachable_iff_exists_path {s : Schema} {root : Root} {position id : Nat} :
    b.Reachable s root position id ↔
      ∃ path, follow? ⟨s, b, root.position, root.table⟩ path = some ⟨s, b, position, id⟩ := by
  constructor
  · intro reachable
    induction reachable with
    | root => exact ⟨[], rfl⟩
    | @nested position id i holder target nested f _ found type place leads inside ih =>
      obtain ⟨path, followed⟩ := ih
      have step : nested? ⟨s, b, position, id⟩ i = some ⟨s, b, target, nested⟩ :=
        nested?_eq_some_iff.mpr ⟨f, nested, holder, target, found, type, place, leads, inside, rfl⟩
      refine ⟨path ++ [i], ?_⟩
      rw [follow?] at followed ⊢
      rw [List.foldlM_append, followed]
      simpa using step
  · rintro ⟨path, followed⟩
    exact (reachable_of_follow? (t := ⟨s, b, root.position, root.table⟩) .root followed).2

end MutableTable
end FlatTable

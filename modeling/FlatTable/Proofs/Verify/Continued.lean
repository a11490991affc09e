import FlatTable.Proofs.Verify.Truncated
import FlatTable.Proofs.View.Readable

/-! Buffers that go on behind what a verifier accepts. A walk looks at no byte that is not there, so each of
its checks comes out as before when more bytes follow. -/
namespace FlatTable
open Layout

namespace Buffer

section
variable {cut b : Buffer} (front : cut.toList <+: b.toList) {position holder : Nat}
include front

theorem size_le_of_cut : cut.size ≤ b.size := by
  rw [← Array.length_toList, ← Array.length_toList]
  exact front.length_le

theorem getElem?_of_cut {x : UInt8} (read : cut[position]? = some x) : b[position]? = some x := by
  obtain ⟨rest, whole⟩ := front
  rw [← Array.getElem?_toList] at read ⊢
  have inside := (List.getElem?_eq_some_iff.mp read).1
  rw [← whole, List.getElem?_append_left inside, read]

theorem fieldPosition?_of_cut {i : Nat} (place : cut.fieldPosition? position i = some holder) :
    b.fieldPosition? position i = some holder := by
  simp only [fieldPosition?, slotPosition?] at place ⊢
  split at place
  · cases place
  · rename_i behind
    obtain ⟨vtable, read, place⟩ := Option.bind_eq_some_iff.mp place
    obtain ⟨size, counted, place⟩ := Option.bind_eq_some_iff.mp place
    split at place
    · rename_i known
      obtain ⟨distance, entry, place⟩ := Option.bind_eq_some_iff.mp place
      simp only [if_neg behind, vtable?_of_cut front read, nat?_of_cut front counted, if_pos known,
        nat?_of_cut front entry, Option.bind_eq_bind, Option.bind_some]
      exact place
    · cases place

theorem table?_of_cut {t : TableView} (read : cut.table? holder = some t) :
    b.table? holder = some ⟨b, t.position⟩ := by
  obtain ⟨leads, inside, _⟩ := table?_eq_some_iff.mp read
  exact table?_eq_some_iff.mpr
    ⟨target?_of_cut front leads, Nat.lt_of_lt_of_le inside (size_le_of_cut front), rfl⟩

/-- Where references to tables can be followed they lead to the same tables. -/
theorem tablesAt_of_cut {id : Nat} {holders : List Nat}
    (read : ∀ h ∈ holders, ∃ t, cut.table? h = some t) :
    b.tablesAt id holders = cut.tablesAt id holders := by
  refine List.filterMap_congr fun h member => ?_
  obtain ⟨t, here⟩ := read h member
  rw [here, table?_of_cut front here, Option.map_some, Option.map_some]

end
end Buffer

namespace Walk
variable {w : Walk} {b : Buffer}

def moved (w : Walk) (b : Buffer) : Walk := { w with buffer := b }

section
variable (front : w.buffer.toList <+: b.toList) {position holder : Nat}
include front

theorem RefersTo.moved {target : Nat} (h : w.RefersTo holder target) :
    (w.moved b).RefersTo holder target :=
  ⟨h.aligned, Buffer.target?_of_cut front h.read, h.forward, h.near,
    Nat.lt_of_lt_of_le h.inside (Buffer.size_le_of_cut front)⟩

theorem StringAt.moved {bytes : List UInt8} (h : w.StringAt position bytes) :
    (w.moved b).StringAt position bytes :=
  ⟨h.aligned, Buffer.nat?_of_cut front h.counted, Buffer.slice?_of_cut front h.read, h.decodes,
    Buffer.getElem?_of_cut front h.terminated⟩

theorem VectorAt.moved {e : ElementType} {length : Nat} (h : w.VectorAt e position length) :
    (w.moved b).VectorAt e position length :=
  ⟨h.aligned, Buffer.nat?_of_cut front h.counted,
    Nat.le_trans h.inside (Buffer.size_le_of_cut front), h.elementsAligned⟩

theorem RefersToString.moved (h : w.RefersToString holder) : (w.moved b).RefersToString holder := by
  obtain ⟨target, bytes, refers, string⟩ := h
  exact ⟨target, bytes, refers.moved front, string.moved front⟩

theorem FieldAt.moved {type : FieldType} (h : w.FieldAt type holder) :
    (w.moved b).FieldAt type holder := by
  cases type with
  | scalar _ | enum _ | struct _ => trivial
  | string => exact RefersToString.moved front h
  | table id =>
    obtain ⟨target, refers⟩ := h
    exact ⟨target, refers.moved front⟩
  | vector e =>
    obtain ⟨target, length, refers, vector, elements⟩ := h
    refine ⟨target, length, refers.moved front, vector.moved front, ?_⟩
    cases e with
    | scalar _ | enum _ => trivial
    | string => exact fun i inside => (elements i inside).moved front
    | table id =>
      intro i inside
      obtain ⟨item, refers⟩ := elements i inside
      exact ⟨item, refers.moved front⟩

theorem VtableAt.moved {vtable vtableSize size : Nat} (h : w.VtableAt position vtable vtableSize size) :
    (w.moved b).VtableAt position vtable vtableSize size :=
  ⟨h.aligned, Buffer.vtable?_of_cut front h.read, h.vtableAligned,
    Buffer.nat?_of_cut front h.vtableCounted, h.even, h.header,
    Nat.le_trans h.vtableInside (Buffer.size_le_of_cut front), Buffer.nat?_of_cut front h.counted,
    h.smallest, Nat.le_trans h.inside (Buffer.size_le_of_cut front)⟩

/-- No field of a table whose vtable is complete appears or disappears. -/
theorem TableAt.fieldPosition?_moved {id : Nat} (h : w.TableAt position id) (i : Nat) :
    b.fieldPosition? position i = w.buffer.fieldPosition? position i := by
  obtain ⟨_, vtable, vtableSize, size, v, _⟩ := h
  refine Option.ext fun holder => ⟨v.fieldPosition?_of_cut front, Buffer.fieldPosition?_of_cut front⟩

theorem TableAt.moved {id : Nat} (h : w.TableAt position id) : (w.moved b).TableAt position id := by
  have places := h.fieldPosition?_moved front
  obtain ⟨known, vtable, vtableSize, size, v, fields⟩ := h
  refine ⟨known, vtable, vtableSize, size, v.moved front, fun i f holder found place => ?_⟩
  have within := fields i f holder found ((places i).symm.trans place)
  exact ⟨within.behind, within.within, within.aligned, within.field.moved front⟩

/-- A field that is in order leads to the same tables. -/
private theorem FieldAt.nestedAt_moved {type : FieldType} (h : w.FieldAt type holder) :
    b.nestedAt type holder = w.buffer.nestedAt type holder := by
  cases type with
  | scalar _ | enum _ | struct _ | string => rfl
  | table id =>
    obtain ⟨target, refers⟩ := h
    refine Buffer.tablesAt_of_cut front fun h member => ?_
    obtain rfl := List.mem_singleton.mp member
    exact ⟨_, refers.table?⟩
  | vector e =>
    obtain ⟨target, length, refers, vector, elements⟩ := h
    cases e with
    | scalar _ | enum _ | string => rfl
    | table id =>
      have holders : b.elementHolders holder = w.buffer.elementHolders holder := by
        simp only [Buffer.elementHolders, Buffer.target?_of_cut front refers.read, refers.read,
          Buffer.nat?_of_cut front vector.counted, vector.counted]
      change b.tablesAt id (b.elementHolders holder) = _
      rw [holders]
      refine Buffer.tablesAt_of_cut front fun h member => ?_
      obtain ⟨i, inside, rfl⟩ := (Buffer.mem_elementHolders refers.read vector.counted).mp member
      obtain ⟨item, refers⟩ := elements i inside
      exact ⟨_, refers.table?⟩

theorem TableAt.nested_moved {id : Nat} (h : w.TableAt position id) :
    b.nested w.schema position id = w.buffer.nested w.schema position id := by
  have places := h.fieldPosition?_moved front
  obtain ⟨_, vtable, vtableSize, size, v, fields⟩ := h
  simp only [Buffer.nested, places]
  cases found : w.schema.tables[id]? with
  | none => rfl
  | some d =>
    refine List.flatMap_congr fun c member => ?_
    obtain ⟨f, i⟩ := c
    have field : w.schema.field? id i = some f := by
      rw [Schema.field?, found, Option.bind_some, ← Array.getElem?_toList]
      exact List.mem_zipIdx_iff_getElem?.mp member
    cases place : w.buffer.fieldPosition? position i with
    | none => rfl
    | some holder =>
      exact (fields i f holder field place).field.nestedAt_moved front

theorem WellFormed.moved {id : Nat} (h : w.WellFormed position id) :
    (w.moved b).WellFormed position id := by
  induction h with
  | @intro position id table nested ih =>
    refine .intro (table.moved front) fun c member => ih c ?_
    rw [← table.nested_moved front]
    exact member

/-- Tables are as deep and as many as before. -/
theorem WellFormed.tally_moved {id : Nat} (h : w.WellFormed position id) (c : Tally) :
    b.tally c w.schema position id = w.buffer.tally c w.schema position id := by
  induction h with
  | @intro position id table nested ih =>
    rw [Buffer.tally_eq, Buffer.tally_eq, table.nested_moved front]
    exact congrArg (1 + c.all ·) (List.map_congr_left ih)

end
end Walk

namespace Verifier
variable {v : Verifier} {cut b : Buffer} {root : Root}

/-- A buffer that begins with an accepted one is accepted with the same root, unless it is too large. -/
theorem verify_of_cut (front : cut.toList <+: b.toList) (accepted : v.verify cut = .ok root)
    (small : b.size ≤ v.options.maxBufferSize) : v.verify b = .ok root := by
  obtain ⟨header, isRoot, refers, wellFormed, shallow, few⟩ := verify_eq_ok_iff.mp accepted
  have tallies (c : Tally) := wellFormed.tally_moved front c
  refine verify_eq_ok_iff.mpr ⟨⟨small, Nat.le_trans header.large (Buffer.size_le_of_cut front),
    Buffer.slice?_of_cut front header.tagged⟩, isRoot, refers.moved front, wellFormed.moved front, ?_, ?_⟩
  · exact Nat.le_trans (Nat.le_of_eq (tallies .max)) shallow
  · exact Nat.le_trans (Nat.le_of_eq (tallies .sum)) few

end Verifier
end FlatTable

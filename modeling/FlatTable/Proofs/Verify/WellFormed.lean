import FlatTable.Verify.Basic
import FlatTable.View.Field
import FlatTable.Proofs.Bytes
import FlatTable.Proofs.Tally

/-! What a well-formed table is, said without counters and without an order of checks, and how deep
and how many the tables below it are. -/
namespace FlatTable
open Layout

namespace Buffer
variable (b : Buffer)

def tablesAt (id : Nat) (holders : List Nat) : List (Nat × Nat) :=
  holders.filterMap fun holder => (b.table? holder).map fun t => (t.position, id)

def elementHolders (holder : Nat) : List Nat :=
  match b.target? holder with
  | none => []
  | some start =>
    (List.range ((b.nat? start offsetSize).getD 0)).map fun i =>
      start + offsetSize + i * offsetSize

def nestedAt (type : FieldType) (holder : Nat) : List (Nat × Nat) :=
  match type with
  | .table id => b.tablesAt id [holder]
  | .vector (.table id) => b.tablesAt id (b.elementHolders holder)
  | _ => []

/-- The tables that a table refers to by its schema, with what the schema calls each. A table that
is referred to twice is listed twice. -/
def nested (s : Schema) (position id : Nat) : List (Nat × Nat) :=
  match s.tables[id]? with
  | none => []
  | some t => t.fields.toList.zipIdx.flatMap fun (f, i) =>
      ((b.fieldPosition? position i).map (b.nestedAt f.type)).getD []

variable {b}

theorem lt_of_fieldPosition? {position field holder : Nat}
    (h : b.fieldPosition? position field = some holder) : position < holder := by
  simp only [fieldPosition?, slotPosition?] at h
  split at h
  · cases h
  · obtain ⟨vtable, _, h⟩ := Option.bind_eq_some_iff.mp h
    obtain ⟨size, _, h⟩ := Option.bind_eq_some_iff.mp h
    split at h
    · obtain ⟨distance, _, h⟩ := Option.bind_eq_some_iff.mp h
      split at h
      · cases h
      · cases h
        omega
    · cases h

theorem le_of_target? {holder target : Nat} (h : b.target? holder = some target) :
    holder ≤ target := by
  obtain ⟨distance, _, rfl⟩ := Option.map_eq_some_iff.mp h
  omega

theorem table?_eq_some_iff {holder : Nat} {t : TableView} :
    b.table? holder = some t ↔
      b.target? holder = some t.position ∧ t.position < b.size ∧ t.buffer = b := by
  simp only [table?, Option.bind_eq_some_iff]
  constructor
  · intro given
    obtain ⟨target, read, h⟩ := given
    split at h
    · cases h
      exact ⟨read, by assumption, rfl⟩
    · cases h
  · intro given
    obtain ⟨read, inside, rfl⟩ := given
    exact ⟨t.position, read, if_pos inside⟩

theorem mem_tablesAt {id : Nat} {holders : List Nat} {c : Nat × Nat} :
    c ∈ b.tablesAt id holders ↔
      ∃ holder ∈ holders, b.table? holder = some ⟨b, c.1⟩ ∧ c.2 = id := by
  simp only [tablesAt, List.mem_filterMap, Option.map_eq_some_iff]
  constructor
  · intro h
    obtain ⟨holder, member, t, read, rfl⟩ := h
    obtain ⟨_, _, rfl⟩ := table?_eq_some_iff.mp read
    exact ⟨holder, member, read, rfl⟩
  · intro given
    obtain ⟨holder, member, read, rfl⟩ := given
    exact ⟨holder, member, _, read, rfl⟩

theorem lt_of_mem_elementHolders {holder h : Nat} (member : h ∈ b.elementHolders holder) :
    holder < h := by
  simp only [elementHolders] at member
  split at member
  · cases member
  · rename_i start read
    have := le_of_target? read
    obtain ⟨i, _, rfl⟩ := List.mem_map.mp member
    simp only [offsetSize]
    omega

theorem mem_elementHolders {holder start length h : Nat} (read : b.target? holder = some start)
    (counted : b.nat? start offsetSize = some length) :
    h ∈ b.elementHolders holder ↔ ∃ i < length, start + offsetSize + i * offsetSize = h := by
  simp only [elementHolders, read, counted, Option.getD_some, List.mem_map, List.mem_range]

theorem mem_nested {s : Schema} {position id : Nat} {c : Nat × Nat} :
    c ∈ b.nested s position id ↔
      ∃ i f holder, s.field? id i = some f ∧ b.fieldPosition? position i = some holder ∧
        c ∈ b.nestedAt f.type holder := by
  simp only [nested, Schema.field?]
  cases s.tables[id]? with
  | none => simp
  | some t =>
    simp only [List.mem_flatMap, Option.bind_some, Prod.exists, List.mem_zipIdx_iff_getElem?,
      Array.getElem?_toList]
    constructor
    · intro h
      obtain ⟨f, i, field, member⟩ := h
      cases place : b.fieldPosition? position i with
      | none => simp [place] at member
      | some holder => exact ⟨i, f, holder, field, place, by simpa [place] using member⟩
    · intro given
      obtain ⟨i, f, holder, field, place, member⟩ := given
      exact ⟨f, i, field, by simpa [place] using member⟩

theorem lt_of_mem_nestedAt {type : FieldType} {holder : Nat} {c : Nat × Nat}
    (h : c ∈ b.nestedAt type holder) : holder ≤ c.1 ∧ c.1 < b.size := by
  have reached {id : Nat} {holders : List Nat} (far : ∀ x ∈ holders, holder ≤ x)
      (member : c ∈ b.tablesAt id holders) : holder ≤ c.1 ∧ c.1 < b.size := by
    obtain ⟨x, inList, read, _⟩ := mem_tablesAt.mp member
    obtain ⟨target, inside, _⟩ := table?_eq_some_iff.mp read
    exact ⟨Nat.le_trans (far x inList) (le_of_target? target), inside⟩
  unfold nestedAt at h
  split at h
  · exact reached (by simp) h
  · exact reached (fun x hx => Nat.le_of_lt (lt_of_mem_elementHolders hx)) h
  · cases h

/-- References lead forward. -/
theorem lt_of_mem_nested {s : Schema} {position id : Nat} {c : Nat × Nat}
    (h : c ∈ b.nested s position id) : position < c.1 ∧ c.1 < b.size := by
  obtain ⟨i, f, holder, _, place, member⟩ := mem_nested.mp h
  obtain ⟨far, inside⟩ := lt_of_mem_nestedAt member
  exact ⟨Nat.lt_of_lt_of_le (lt_of_fieldPosition? place) far, inside⟩

/-- The number of a table, which is one more than those of the tables it refers to together. -/
def tally (c : Tally) (b : Buffer) (s : Schema) (position id : Nat) : Nat :=
  1 + c.all ((b.nested s position id).attach.map fun n => tally c b s n.1.1 n.1.2)
termination_by b.size - position
decreasing_by
  have := lt_of_mem_nested n.2
  omega

theorem tally_eq (c : Tally) (s : Schema) (position id : Nat) :
    tally c b s position id =
      1 + c.all ((b.nested s position id).map fun n => tally c b s n.1 n.2) := by
  rw [tally]
  exact congrArg (1 + c.all ·)
    (List.attach_map_val (f := fun n : Nat × Nat => tally c b s n.1 n.2))

def depth (b : Buffer) (s : Schema) (position id : Nat) : Nat := tally .max b s position id

def visits (b : Buffer) (s : Schema) (position id : Nat) : Nat := tally .sum b s position id

end Buffer

namespace Walk
variable (w : Walk)

def Aligned (position alignment : Nat) : Prop :=
  w.options.checkAlignment → alignment ∣ position

/-- A reference points forward, at most as far as a signed distance reaches, and into the buffer. -/
structure RefersTo (holder target : Nat) : Prop where
  aligned : w.Aligned holder offsetSize
  read : w.buffer.target? holder = some target
  forward : holder < target
  near : target - holder < 2 ^ 31
  inside : target < w.buffer.size

structure StringAt (position : Nat) (bytes : List UInt8) : Prop where
  aligned : w.Aligned position offsetSize
  counted : w.buffer.nat? position offsetSize = some bytes.length
  read : w.buffer.slice? (position + offsetSize) bytes.length = some bytes
  decodes : (Text.decodeUtf8? bytes).isSome
  terminated : w.buffer[position + offsetSize + bytes.length]? = some 0

structure VectorAt (element : ElementType) (position length : Nat) : Prop where
  aligned : w.Aligned position offsetSize
  counted : w.buffer.nat? position offsetSize = some length
  inside :
    position + offsetSize + length * w.schema.elementWidth element ≤ w.buffer.size
  elementsAligned :
    0 < length → w.Aligned (position + offsetSize) (w.schema.elementWidth element)

def RefersToString (holder : Nat) : Prop :=
  ∃ target bytes, w.RefersTo holder target ∧ w.StringAt target bytes

def ElementsAt (element : ElementType) (position length : Nat) : Prop :=
  match element with
  | .scalar _ | .enum _ => True
  | .string => ∀ i < length, w.RefersToString (position + offsetSize + i * offsetSize)
  | .table _ =>
    ∀ i < length, ∃ target, w.RefersTo (position + offsetSize + i * offsetSize) target

def FieldAt (type : FieldType) (holder : Nat) : Prop :=
  match type with
  | .scalar _ | .enum _ | .struct _ => True
  | .string => w.RefersToString holder
  | .vector element =>
    ∃ target length, w.RefersTo holder target ∧ w.VectorAt element target length ∧
      w.ElementsAt element target length
  | .table _ => ∃ target, w.RefersTo holder target

structure VtableAt (position vtable vtableSize size : Nat) : Prop where
  aligned : w.Aligned position offsetSize
  read : w.buffer.vtable? position = some vtable
  vtableAligned : w.Aligned vtable slotSize
  vtableCounted : w.buffer.nat? vtable slotSize = some vtableSize
  even : slotSize ∣ vtableSize
  header : vtableHeader ≤ vtableSize
  vtableInside : vtable + vtableSize ≤ w.buffer.size
  counted : w.buffer.nat? (vtable + slotSize) slotSize = some size
  smallest : offsetSize ≤ size
  inside : position + size ≤ w.buffer.size

/-- A field lies behind the distance to the vtable and within the table, and so does what it refers
to within the buffer. -/
structure FieldWithin (position size : Nat) (type : FieldType) (holder : Nat) : Prop where
  behind : position + offsetSize ≤ holder
  within : holder + w.schema.inlineWidth type ≤ position + size
  aligned : w.Aligned holder (w.schema.inlineAlignment type)
  field : w.FieldAt type holder

/-- A table whose own bytes, strings and vectors are in order. -/
def TableAt (position id : Nat) : Prop :=
  id < w.schema.tables.size ∧
    ∃ vtable vtableSize size, w.VtableAt position vtable vtableSize size ∧
      ∀ i f holder, w.schema.field? id i = some f →
        w.buffer.fieldPosition? position i = some holder →
        w.FieldWithin position size f.type holder

/-- A table that is in order together with all tables below it. -/
inductive WellFormed : Nat → Nat → Prop where
  | intro {position id : Nat} (table : w.TableAt position id)
      (nested : ∀ c ∈ w.buffer.nested w.schema position id, WellFormed c.1 c.2) :
      WellFormed position id

end Walk
end FlatTable

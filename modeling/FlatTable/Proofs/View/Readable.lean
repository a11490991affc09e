import FlatTable.Proofs.Schema.Valid
import FlatTable.Proofs.Verify.WellFormed
import FlatTable.Proofs.Padding

/-! In a well-formed table the readers find what the schema declares: every field that is present
reads as a value of its type, and the tables that it leads to are well formed again. -/
namespace FlatTable
open Layout

section
variable {α β : Type} {read : Nat → Option α} {start count : Nat}

theorem readWhile_map (read : Nat → Option α) (f : α → β) (start count : Nat) :
    readWhile (fun i => (read i).map f) start count = (readWhile read start count).map f := by
  induction count generalizing start with
  | zero => rfl
  | succ count ih =>
    rw [readWhile, readWhile]
    cases read start with
    | none => rfl
    | some a => exact congrArg (f a :: ·) (ih (start + 1))

theorem length_readWhile_le : (readWhile read start count).length ≤ count := by
  induction count generalizing start with
  | zero => exact Nat.le_refl 0
  | succ count ih =>
    rw [readWhile]
    split
    · exact Nat.succ_le_succ ih
    · exact Nat.zero_le _

theorem read_of_readWhile (i : Nat) {a : α} (found : (readWhile read start count)[i]? = some a) :
    read (start + i) = some a := by
  induction count generalizing start i with
  | zero => cases found
  | succ count ih =>
    rw [readWhile] at found
    cases first : read start with
    | none =>
      rw [first] at found
      cases found
    | some a' =>
      rw [first] at found
      cases i with
      | zero => rw [Nat.add_zero, first, ← found, List.getElem?_cons_zero]
      | succ i =>
        rw [← ih i found]
        congr 1
        omega

/-- Reading stops early only where nothing is read. -/
theorem read_length_readWhile (short : (readWhile read start count).length < count) :
    read (start + (readWhile read start count).length) = none := by
  induction count generalizing start with
  | zero => cases short
  | succ count ih =>
    rw [readWhile] at short ⊢
    cases first : read start with
    | none => exact first
    | some a =>
      rw [first] at short
      have rest := ih (Nat.lt_of_succ_lt_succ short)
      dsimp only
      rw [List.length_cons, ← rest]
      congr 1
      omega

theorem mem_readWhile {a : α} (member : a ∈ readWhile read start count) :
    ∃ i < count, read (start + i) = some a := by
  obtain ⟨i, found⟩ := List.mem_iff_getElem?.mp member
  have inside := (List.getElem?_eq_some_iff.mp found).1
  exact ⟨i, Nat.lt_of_lt_of_le inside length_readWhile_le, read_of_readWhile i found⟩

/-- Where nothing is missing everything is read. -/
theorem getElem?_readWhile (full : ∀ i < count, (read (start + i)).isSome) (i : Nat) :
    (readWhile read start count)[i]? = if i < count then read (start + i) else none := by
  induction count generalizing start i with
  | zero => simp [readWhile]
  | succ count ih =>
    obtain ⟨first, found⟩ := Option.isSome_iff_exists.mp (full 0 (by omega))
    rw [Nat.add_zero] at found
    have rest : ∀ i < count, (read (start + 1 + i)).isSome := fun i lt => by
      have := full (i + 1) (by omega)
      rwa [show start + (i + 1) = start + 1 + i by omega] at this
    simp only [readWhile, found]
    cases i with
    | zero => simp [found]
    | succ i =>
      rw [List.getElem?_cons_succ, ih rest, show start + 1 + i = start + (i + 1) by omega]
      simp

theorem length_readWhile (full : ∀ i < count, (read (start + i)).isSome) :
    (readWhile read start count).length = count := by
  induction count generalizing start with
  | zero => rfl
  | succ count ih =>
    obtain ⟨first, found⟩ := Option.isSome_iff_exists.mp (full 0 (by omega))
    rw [Nat.add_zero] at found
    have rest : ∀ i < count, (read (start + 1 + i)).isSome := fun i lt => by
      have := full (i + 1) (by omega)
      rwa [show start + (i + 1) = start + 1 + i by omega] at this
    simp [readWhile, found, ih rest]

/-- Where as much is read as was asked for nothing is missing. -/
theorem isSome_of_length_readWhile (whole : (readWhile read start count).length = count) :
    ∀ i < count, (read (start + i)).isSome := by
  intro i inside
  rw [← whole] at inside
  rw [read_of_readWhile i (List.getElem?_eq_getElem inside), Option.isSome_some]

end

/-- If no element is missing then each is read where it is. -/
theorem FieldVector.get?_eq_getElem?_items {v : FieldVector} (whole : v.items.length = v.length)
    (j : Nat) : v.get? j = v.items[j]? := by
  have full : ∀ i < v.length, (v.get? (0 + i)).isSome := isSome_of_length_readWhile whole
  rw [items, getElem?_readWhile full, Nat.zero_add]
  split
  · rfl
  · rename_i outside
    rw [get?, if_neg outside]

namespace Schema
variable (s : Schema)

def IsElement (type : ElementType) (value : FieldValue) : Prop :=
  match type, value with
  | .scalar t, .scalar v => v.type = t
  | .enum id, .scalar v => s.underlying? id = some v.type
  | .string, .string _ => True
  | .table id, .table _ found => found = id
  | _, _ => False

structure IsStruct (id : Nat) (view : StructView) : Prop where
  same : view.id = id
  size : view.bytes.size = s.inlineWidth (.struct id)
  member : ∀ d i m, s.structs[id]? = some d → d.members[i]? = some m →
    ∃ v, view.member? s i = some v ∧ v.type = m.type

/-- A vector whose iteration yields as many elements as it has, all of them of the element type. -/
structure IsVector (type : ElementType) (v : FieldVector) : Prop where
  same : v.element = type
  complete : v.items.length = v.length
  get : ∀ i, v.get? i = v.items[i]?
  element : ∀ item ∈ v.items, s.IsElement type item

def IsValue (type : FieldType) (value : FieldValue) : Prop :=
  match type, value with
  | .scalar t, .scalar v => v.type = t
  | .enum id, .scalar v => s.underlying? id = some v.type
  | .string, .string _ => True
  | .vector element, .vector v => s.IsVector element v
  | .table id, .table _ found => found = id
  | .struct id, .struct view => s.IsStruct id view
  | _, _ => False

/-- The tables that reading by the schema leads to, from a root on. -/
inductive Reached (root : TableView) (rootId : Nat) : TableView → Nat → Prop where
  | root : Reached root rootId root rootId
  | field {t t' : TableView} {id id' i : Nat} (before : Reached root rootId t id)
      (read : t.field s id i = .table t' id') : Reached root rootId t' id'
  | element {t t' : TableView} {id id' i j : Nat} {v : FieldVector}
      (before : Reached root rootId t id) (read : t.field s id i = .vector v)
      (get : v.get? j = some (.table t' id')) : Reached root rootId t' id'

end Schema

namespace Walk
variable {w : Walk}

theorem RefersTo.table? {holder target : Nat} (h : w.RefersTo holder target) :
    w.buffer.table? holder = some ⟨w.buffer, target⟩ :=
  Buffer.table?_eq_some_iff.mpr ⟨h.read, h.inside, rfl⟩

/-- A reference to a string reads as the string. -/
theorem RefersToString.string? {holder : Nat} (h : w.RefersToString holder) :
    ∃ text, w.buffer.string? holder = some text := by
  obtain ⟨target, bytes, refers, string⟩ := h
  obtain ⟨text, decodes⟩ := Option.isSome_iff_exists.mp string.decodes
  refine ⟨text, ?_⟩
  simp only [Buffer.string?, refers.read, string.counted, string.read, Option.bind_eq_bind,
    Option.bind_some, decodes]

end Walk

namespace Schema
variable {s : Schema}

/-- Every member lies in a struct's bytes. -/
private theorem isStruct_of_size {id : Nat} {bytes : Buffer}
    (size : bytes.size = s.inlineWidth (.struct id)) : s.IsStruct id ⟨bytes, id⟩ := by
  refine ⟨rfl, size, ?_⟩
  intro d i m found member
  obtain ⟨o, offset⟩ := StructDef.exists_offset member
  have inside := StructDef.offset_add_width_le_size member offset
  have width : s.inlineWidth (.struct id) = d.size := by
    simp only [inlineWidth, found, Option.map_some, Option.getD_some]
  obtain ⟨v, read, type⟩ := Buffer.value?_of_le
    (show o + m.type.width ≤ bytes.size by rw [size, width]; exact inside)
  refine ⟨v, ?_, type⟩
  simp only [StructView.member?, found, member, offset, read, Option.bind_eq_bind,
    Option.bind_some]

end Schema

namespace Walk
variable {w : Walk}

/-- Elements that are scalars are inside the buffer. -/
theorem VectorAt.scalarInside {element : ElementType} {type : ScalarType} {position length i : Nat}
    (vector : w.VectorAt element position length)
    (scalar : w.schema.elementScalarType? element = some type) (lt : i < length) :
    position + offsetSize + i * type.width + type.width ≤ w.buffer.size := by
  have all := vector.inside
  have width : w.schema.elementWidth element = type.width := by
    simp only [Schema.elementWidth, scalar, Option.map_some, Option.getD_some]
  have upTo : (i + 1) * type.width ≤ length * type.width := Nat.mul_le_mul_right _ lt
  rw [width] at all
  rw [Nat.add_mul, Nat.one_mul] at upTo
  omega

/-- The elements of a well-formed vector can all be read, and are of its type. -/
private theorem exists_element {element : ElementType} {position length : Nat}
    (resolves : w.schema.Resolves (.vector element)) (vector : w.VectorAt element position length)
    (elements : w.ElementsAt element position length) {i : Nat} (lt : i < length) :
    ∃ value, FieldVector.get? ⟨w.buffer, position + offsetSize, length, element,
      w.schema.elementScalarType? element⟩ i = some value ∧ w.schema.IsElement element value := by
  simp only [FieldVector.get?, if_pos lt]
  cases element with
  | scalar t =>
    obtain ⟨v, read, type⟩ := Buffer.value?_of_le (vector.scalarInside rfl lt)
    exact ⟨.scalar v, by simp only [Schema.elementScalarType?, read, Option.map_some], type⟩
  | enum id =>
    obtain ⟨t, underlying⟩ := Schema.Resolves.underlying
      (show w.schema.Resolves (.enum id) from resolves)
    obtain ⟨v, read, type⟩ := Buffer.value?_of_le (vector.scalarInside underlying lt)
    refine ⟨.scalar v, ?_, by simp only [Schema.IsElement, underlying, type]⟩
    simp only [Schema.elementScalarType?, underlying, read, Option.map_some]
  | string =>
    obtain ⟨text, read⟩ := (elements i lt).string?
    exact ⟨.string text, by simp only [read, Option.map_some], trivial⟩
  | table id =>
    obtain ⟨target, refers⟩ := elements i lt
    exact ⟨.table ⟨w.buffer, target⟩ id, by simp only [refers.table?, Option.map_some], rfl⟩

/-- A well-formed vector reads as such. -/
private theorem exists_vector {element : ElementType} {position length : Nat}
    (resolves : w.schema.Resolves (.vector element)) (vector : w.VectorAt element position length)
    (elements : w.ElementsAt element position length) :
    ∃ v, FieldVector.at? w.schema w.buffer element position = some v ∧
      w.schema.IsVector element v := by
  have read : FieldVector.at? w.schema w.buffer element position =
      some ⟨w.buffer, position + offsetSize, length, element,
        w.schema.elementScalarType? element⟩ := by
    simp only [FieldVector.at?, Buffer.elements?, vector.counted, Option.bind_eq_bind,
      Option.bind_some, if_pos vector.inside, Option.pure_def]
  refine ⟨_, read, rfl, ?_, ?_, ?_⟩
  · apply length_readWhile
    intro i lt
    obtain ⟨value, get, _⟩ := exists_element resolves vector elements lt
    rw [Nat.zero_add, get]
    rfl
  · intro i
    rw [FieldVector.items, getElem?_readWhile fun i lt => ?_, Nat.zero_add]
    · split
      · rfl
      · simp only [FieldVector.get?]
        rename_i outside
        exact if_neg outside
    · obtain ⟨value, get, _⟩ := exists_element resolves vector elements lt
      rw [Nat.zero_add, get]
      rfl
  · intro item member
    obtain ⟨i, lt, get⟩ := mem_readWhile member
    obtain ⟨value, get', isElement⟩ := exists_element resolves vector elements lt
    rw [Nat.zero_add, get'] at get
    exact Option.some.inj get ▸ isElement

end Walk

namespace FieldVector
variable {s : Schema} {b : Buffer} {element : ElementType} {position : Nat} {v : FieldVector}

theorem at?_eq_some_iff :
    at? s b element position = some v ↔ ∃ length,
      b.nat? position offsetSize = some length ∧
        position + offsetSize + length * s.elementWidth element ≤ b.size ∧
          v = ⟨b, position + offsetSize, length, element, s.elementScalarType? element⟩ := by
  simp only [at?, Buffer.elements?, Option.bind_eq_bind, Option.bind_eq_some_iff]
  constructor
  · intro h
    obtain ⟨⟨length, start⟩, ⟨counted, read, found⟩, same⟩ := h
    split at found
    · cases found
      cases same
      exact ⟨_, read, by assumption, rfl⟩
    · cases found
  · intro given
    obtain ⟨length, read, inside, rfl⟩ := given
    exact ⟨(length, position + offsetSize), ⟨length, read, if_pos inside⟩, rfl⟩

/-- A table is an element of a vector of tables only. -/
theorem exists_table {j : Nat} {t : TableView} {id : Nat} (get : v.get? j = some (.table t id)) :
    j < v.length ∧ v.element = .table id ∧
      v.buffer.table? (v.start + j * offsetSize) = some t := by
  simp only [get?] at get
  split at get
  · rename_i inside
    refine ⟨inside, ?_⟩
    split at get
    · obtain ⟨_, _, same⟩ := Option.map_eq_some_iff.mp get
      cases same
    · rename_i isTable
      obtain ⟨_, table, same⟩ := Option.map_eq_some_iff.mp get
      cases same
      exact ⟨isTable, table⟩
    · obtain ⟨_, _, same⟩ := Option.map_eq_some_iff.mp get
      cases same
    · cases get
  · cases get

end FieldVector

namespace TableView
variable {s : Schema} {t : TableView} {id i : Nat} {f : FieldDef}

/-- A scalar or enum field reads as what is stored, or else as its default. -/
theorem field_of_scalar {type : ScalarType} (h : s.field? id i = some f)
    (live : f.deprecated = false) (scalar : s.scalarType? f.type = some type) :
    t.field s id i = ((t.scalarField? s id i type).map .scalar).getD .absent := by
  simp only [field, h, live, Bool.false_eq_true, if_false]
  cases fieldType : f.type <;> simp_all [Schema.scalarType?]

/-- Other fields read as what is stored, or else as absent. -/
theorem field_of_stored (h : s.field? id i = some f) (live : f.deprecated = false)
    (stored : f.type.isFixedWidth = false) :
    t.field s id i =
      ((t.buffer.fieldPosition? t.position i).bind (t.stored? s f.type)).getD .absent := by
  simp only [field, h, live, Bool.false_eq_true, if_false]
  cases fieldType : f.type <;> simp_all [FieldType.isFixedWidth]

/-- What a field reads as, if it is no scalar and not absent, is stored where the field is. -/
theorem exists_stored {value : FieldValue} (read : t.field s id i = value)
    (present : value ≠ .absent) (compound : ∀ v, value ≠ .scalar v) :
    ∃ f holder, s.field? id i = some f ∧ f.deprecated = false ∧ f.type.isFixedWidth = false ∧
      t.buffer.fieldPosition? t.position i = some holder ∧
        t.stored? s f.type holder = some value := by
  cases found : s.field? id i with
  | none =>
    simp only [field, found] at read
    exact absurd read.symm present
  | some f =>
    cases live : f.deprecated with
    | true =>
      simp only [field, found, live, if_true] at read
      exact absurd read.symm present
    | false =>
      cases fixed : f.type.isFixedWidth with
      | true =>
        exfalso
        have scalar : t.field s id i =
            (((s.scalarType? f.type).bind (t.scalarField? s id i)).map .scalar).getD .absent := by
          simp only [field, found, live, Bool.false_eq_true, if_false]
          cases fieldType : f.type <;> simp_all [FieldType.isFixedWidth]
        rw [scalar] at read
        cases stored : (s.scalarType? f.type).bind (t.scalarField? s id i) with
        | none =>
          rw [stored] at read
          exact present read.symm
        | some v =>
          rw [stored] at read
          exact compound v read.symm
      | false =>
        rw [field_of_stored found live fixed] at read
        cases place : t.buffer.fieldPosition? t.position i with
        | none =>
          rw [place] at read
          exact absurd read.symm present
        | some holder =>
          rw [place, Option.bind_some] at read
          cases stored : t.stored? s f.type holder with
          | none =>
            rw [stored] at read
            exact absurd read.symm present
          | some found' =>
            rw [stored, Option.getD_some] at read
            exact ⟨f, holder, rfl, live, fixed, rfl, by rw [stored, read]⟩

end TableView

theorem Schema.inlineWidth_of_scalar {s : Schema} {type : FieldType} {scalar : ScalarType}
    (resolves : s.scalarType? type = some scalar) : s.inlineWidth type = scalar.width := by
  cases type <;> simp_all [Schema.scalarType?, Schema.inlineWidth]

namespace Walk
variable {w : Walk}

/-- The bytes of a field that is present are inside the buffer, and what it refers to is there. -/
theorem TableAt.fieldWithin {position id i holder : Nat} {f : FieldDef}
    (table : w.TableAt position id) (field : w.schema.field? id i = some f)
    (place : w.buffer.fieldPosition? position i = some holder) :
    holder + w.schema.inlineWidth f.type ≤ w.buffer.size ∧ w.FieldAt f.type holder := by
  obtain ⟨_, vtable, vtableSize, size, v, fields⟩ := table
  have within := fields i f holder field place
  exact ⟨Nat.le_trans within.within v.inside, within.field⟩

/-- A scalar that is present reads as the stored bytes. -/
theorem TableAt.scalar {position id i holder : Nat} {f : FieldDef} {type : ScalarType}
    (table : w.TableAt position id) (field : w.schema.field? id i = some f)
    (live : f.deprecated = false) (scalar : w.schema.scalarType? f.type = some type)
    (place : w.buffer.fieldPosition? position i = some holder) :
    ∃ v, w.buffer.value? type holder = some v ∧ v.type = type ∧
      TableView.field ⟨w.buffer, position⟩ w.schema id i = .scalar v := by
  obtain ⟨inside, _⟩ := table.fieldWithin field place
  have width : w.schema.inlineWidth f.type = type.width := Schema.inlineWidth_of_scalar scalar
  obtain ⟨v, read, same⟩ := Buffer.value?_of_le (width ▸ inside)
  refine ⟨v, read, same, ?_⟩
  rw [TableView.field_of_scalar field live scalar]
  simp only [TableView.scalarField?, place, Option.bind_some, read, Option.map_some,
    Option.getD_some]

/-- Every field that is present in a well-formed table reads as a value of its type. -/
theorem TableAt.isValue (valid : w.schema.Valid) {position id i holder : Nat} {f : FieldDef}
    (table : w.TableAt position id) (field : w.schema.field? id i = some f)
    (live : f.deprecated = false)
    (place : w.buffer.fieldPosition? position i = some holder) :
    w.schema.IsValue f.type (TableView.field ⟨w.buffer, position⟩ w.schema id i) := by
  obtain ⟨inside, stored⟩ := table.fieldWithin field place
  have resolves := (valid.field field).1
  cases type : f.type with
  | scalar t =>
    obtain ⟨v, _, same, read⟩ := table.scalar field live (by rw [type]; rfl) place
    rw [read]
    exact same
  | enum enum =>
    obtain ⟨t, scalar⟩ := (type ▸ resolves : w.schema.Resolves (.enum enum)).underlying
    obtain ⟨v, _, same, read⟩ := table.scalar field live (by rw [type]; exact scalar) place
    rw [read]
    simp only [Schema.IsValue, scalar, same]
  | string =>
    rw [type] at stored
    obtain ⟨text, read⟩ := Walk.RefersToString.string? stored
    rw [TableView.field_of_stored field live (by rw [type]; rfl), type]
    simp only [place, TableView.stored?, read, Option.bind_some, Option.map_some,
      Option.getD_some, Schema.IsValue]
  | vector element =>
    rw [type] at stored resolves
    obtain ⟨target, length, refers, vector, elements⟩ := stored
    obtain ⟨found, read, isVector⟩ := exists_vector resolves vector elements
    rw [TableView.field_of_stored field live (by rw [type]; rfl), type]
    simp only [place, TableView.stored?, refers.read, read, Option.bind_some, Option.map_some,
      Option.getD_some, Schema.IsValue, isVector]
  | table nested =>
    rw [type] at stored
    obtain ⟨target, refers⟩ := stored
    rw [TableView.field_of_stored field live (by rw [type]; rfl), type]
    simp only [place, TableView.stored?, refers.table?, Option.bind_some, Option.map_some,
      Option.getD_some, Schema.IsValue]
  | struct struct =>
    rw [type] at inside
    obtain ⟨bytes, read, length⟩ := Buffer.slice?_of_le inside
    rw [TableView.field_of_stored field live (by rw [type]; rfl), type]
    simp only [place, TableView.stored?, read, Option.bind_some, Option.map_some,
      Option.getD_some, Schema.IsValue]
    exact Schema.isStruct_of_size (by simpa using length)

end Walk

namespace TableView
variable {s : Schema} {t t' : TableView} {id id' i : Nat} {f : FieldDef}

/-- A table that a field reads as is the one that the field's reference leads to. -/
theorem exists_table (read : t.field s id i = .table t' id') :
    ∃ f holder, s.field? id i = some f ∧ f.type = .table id' ∧
      t.buffer.fieldPosition? t.position i = some holder ∧ t.buffer.table? holder = some t' := by
  obtain ⟨f, holder, found, live, fixed, place, stored⟩ :=
    exists_stored read (by simp) (by simp)
  cases type : f.type with
  | table nested =>
    rw [type] at stored
    obtain ⟨t', table, same⟩ := Option.map_eq_some_iff.mp stored
    cases same
    exact ⟨f, holder, found, type, place, table⟩
  | vector element =>
    rw [type] at stored
    obtain ⟨_, _, same⟩ := Option.map_eq_some_iff.mp stored
    cases same
  | scalar t | enum enum | string | struct struct => simp [type, stored?] at stored

/-- A vector that a field reads as is the one that the field's reference leads to. -/
theorem exists_vector {v : FieldVector} (read : t.field s id i = .vector v) :
    ∃ f holder target element, s.field? id i = some f ∧ f.type = .vector element ∧
      t.buffer.fieldPosition? t.position i = some holder ∧
        t.buffer.target? holder = some target ∧
          FieldVector.at? s t.buffer element target = some v := by
  obtain ⟨f, holder, found, live, fixed, place, stored⟩ :=
    exists_stored read (by simp) (by simp)
  cases type : f.type with
  | vector element =>
    rw [type] at stored
    obtain ⟨v, vector, same⟩ := Option.map_eq_some_iff.mp stored
    cases same
    obtain ⟨target, refers, at?⟩ := Option.bind_eq_some_iff.mp vector
    exact ⟨f, holder, target, element, found, type, place, refers, at?⟩
  | scalar t | enum enum | string | table nested | struct struct =>
    simp [type, stored?] at stored

/-- A struct that is read has the declared type, and is stored where the field is. -/
theorem exists_struct {view : StructView} (read : t.field s id i = .struct view) :
    ∃ f holder struct bytes, s.field? id i = some f ∧ f.deprecated = false ∧
      f.type = .struct struct ∧ t.buffer.fieldPosition? t.position i = some holder ∧
        t.buffer.slice? holder (s.inlineWidth f.type) = some bytes ∧
          view = ⟨bytes.toArray, struct⟩ := by
  obtain ⟨f, holder, found, live, fixed, place, stored⟩ := exists_stored read (by simp) (by simp)
  cases type : f.type with
  | struct struct =>
    rw [type] at stored
    obtain ⟨bytes, slice, same⟩ := Option.map_eq_some_iff.mp stored
    exact ⟨f, holder, struct, bytes, found, live, type, place, type ▸ slice,
      (FieldValue.struct.inj same).symm⟩
  | string | vector e | table id =>
    rw [type] at stored
    obtain ⟨_, _, same⟩ := Option.map_eq_some_iff.mp stored
    cases same
  | scalar t | enum enum => simp [type, stored?] at stored

/-- A table that a field reads as is one of those below the table. -/
theorem nested_of_field (read : t.field s id i = .table t' id') :
    t'.buffer = t.buffer ∧ (t'.position, id') ∈ t.buffer.nested s t.position id := by
  obtain ⟨f, holder, found, type, place, table⟩ := exists_table read
  obtain ⟨_, _, same⟩ := Buffer.table?_eq_some_iff.mp table
  refine ⟨same, Buffer.mem_nested.mpr ⟨i, f, holder, found, place, ?_⟩⟩
  rw [type]
  refine Buffer.mem_tablesAt.mpr ⟨holder, by simp, ?_, rfl⟩
  rw [table, ← same]

/-- A table that is an element of a vector field is one of those below the table. -/
theorem nested_of_element {v : FieldVector} {j : Nat} (read : t.field s id i = .vector v)
    (get : v.get? j = some (.table t' id')) :
    t'.buffer = t.buffer ∧ (t'.position, id') ∈ t.buffer.nested s t.position id := by
  obtain ⟨f, holder, target, element, found, type, place, refers, vector⟩ := exists_vector read
  obtain ⟨length, counted, _, rfl⟩ := FieldVector.at?_eq_some_iff.mp vector
  obtain ⟨inside, isTable, table⟩ := FieldVector.exists_table get
  obtain rfl : element = .table id' := isTable
  have same : t'.buffer = t.buffer := (Buffer.table?_eq_some_iff.mp table).2.2
  refine ⟨same, Buffer.mem_nested.mpr ⟨i, f, holder, found, place, ?_⟩⟩
  rw [type]
  refine Buffer.mem_tablesAt.mpr ⟨target + offsetSize + j * offsetSize, ?_, ?_, rfl⟩
  · exact (Buffer.mem_elementHolders refers counted).mpr ⟨j, inside, rfl⟩
  · rw [table, ← same]

end TableView
end FlatTable

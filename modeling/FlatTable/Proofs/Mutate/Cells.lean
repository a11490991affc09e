import FlatTable.Proofs.Mutate.Places
import FlatTable.Proofs.View.Readable

/-! What readers find in a buffer of the same shape: all but the scalars is the same, and a scalar is
the same where its bytes are. -/
namespace FlatTable
open Layout

inductive Outline where
  | absent
  | scalar (type : ScalarType)
  | string (text : String)
  | vector (start : Nat) (element : ElementType) (items : List (Option Outline))
  | table (position id : Nat)
  | struct (id : Nat)

namespace FieldValue

def itemOutline : FieldValue → Outline
  | .absent => .absent
  | .scalar v => .scalar v.type
  | .string text => .string text
  | .vector v => .vector v.start v.element []
  | .table t id => .table t.position id
  | .struct view => .struct view.id

def outline : FieldValue → Outline
  | .vector v => .vector v.start v.element
      ((List.range v.length).map fun j => (v.get? j).map itemOutline)
  | value => value.itemOutline

def scalar? : FieldValue → Option Value
  | .scalar v => some v
  | _ => none

end FieldValue

def TableView.cell? (t : TableView) (s : Schema) (id : Nat) : Cell → Option Value
  | .field i => (t.field s id i).scalar?
  | .member i j =>
    match t.field s id i with
    | .struct view => view.member? s j
    | _ => none
  | .element i j =>
    match t.field s id i with
    | .vector v => (v.get? j).bind FieldValue.scalar?
    | _ => none

namespace TableView
variable {s : Schema} {t : TableView} {id i : Nat} {f : FieldDef}

/-- A scalar or enum field by its declaration, whether or not that is resolved. -/
theorem field_of_fixed (found : s.field? id i = some f) (live : f.deprecated = false)
    (fixed : f.type.isFixedWidth = true) : t.field s id i =
      (((s.scalarType? f.type).bind (t.scalarField? s id i)).map .scalar).getD .absent := by
  simp only [field, found, live, Bool.false_eq_true, if_false]
  cases type : f.type <;> simp_all [FieldType.isFixedWidth]

/-- What is stored for other fields is no scalar. -/
theorem scalar?_of_stored? {type : FieldType} {position : Nat} {value : FieldValue}
    (read : t.stored? s type position = some value) : value.scalar? = none := by
  cases type with
  | scalar t | enum enum => cases read
  | string | vector e | table id | struct id =>
    obtain ⟨_, _, rfl⟩ := Option.map_eq_some_iff.mp read
    rfl

/-- A member that can be read is one that can be changed. -/
private theorem exists_cellAt_member {j : Nat} {v : Value}
    (read : t.cell? s id (.member i j) = some v) :
    ∃ p type, t.buffer.CellAt s t.position id (.member i j) p type := by
  simp only [cell?] at read
  split at read
  · rename_i view isStruct
    obtain ⟨f, holder, struct, bytes, found, live, type, place, _, rfl⟩ :=
      exists_struct isStruct
    simp only [StructView.member?, Option.bind_eq_bind, Option.bind_eq_some_iff] at read
    obtain ⟨d, declared, m, member, offset, inside, _⟩ := read
    exact ⟨_, _, .member found live type declared member inside place⟩
  · cases read

/-- An element that can be read as a scalar is one that can be changed. -/
private theorem exists_cellAt_element {j : Nat} {v : Value}
    (read : t.cell? s id (.element i j) = some v) :
    ∃ p type, t.buffer.CellAt s t.position id (.element i j) p type := by
  simp only [cell?] at read
  split at read
  · rename_i u isVector
    obtain ⟨f, holder, target, e, found, type, place, leads, vector⟩ := exists_vector isVector
    obtain ⟨f', _, found', live, _⟩ := exists_stored isVector (by simp) (by simp)
    obtain rfl : f = f' := Option.some.inj (found.symm.trans found')
    obtain ⟨length, counted, _, rfl⟩ := FieldVector.at?_eq_some_iff.mp vector
    obtain ⟨value, get, scalar⟩ := Option.bind_eq_some_iff.mp read
    simp only [FieldVector.get?] at get
    split at get
    · rename_i inside
      cases element : s.elementScalarType? e with
      | some scalarType =>
        exact ⟨_, _, .element found live type element place leads counted inside⟩
      | none =>
        exfalso
        rw [element] at get
        cases e with
        | string | table nested =>
          obtain ⟨_, _, rfl⟩ := Option.map_eq_some_iff.mp get
          cases scalar
        | scalar | enum => cases get
    · cases get
  · cases read

end TableView

namespace Buffer
variable {b b' : Buffer}

theorem slice?_isSome (size : b'.size = b.size) (position length : Nat) :
    (b'.slice? position length).isSome = (b.slice? position length).isSome := by
  simp only [slice?, size]
  split <;> rfl

/-- Whether a scalar can be read there depends on the size of the buffer only. -/
theorem value?_map_type (size : b'.size = b.size) (type : ScalarType) (position : Nat) :
    (b'.value? type position).map Value.type = (b.value? type position).map Value.type := by
  have some := slice?_isSome size position type.width
  simp only [value?, nat?]
  cases read : b.slice? position type.width with
  | none =>
    rw [read, Option.isSome_none, Option.isSome_eq_false_iff, Option.isNone_iff_eq_none] at some
    rw [some]
  | some bytes =>
    rw [read, Option.isSome_some, Option.isSome_iff_exists] at some
    obtain ⟨bytes', read'⟩ := some
    rw [read']
    rfl

/-- A scalar of a slice is one of the buffer. -/
theorem value?_of_slice {position length offset : Nat} {bytes : List UInt8} {type : ScalarType}
    (read : b.slice? position length = some bytes) (inside : offset + type.width ≤ length) :
    Buffer.value? bytes.toArray type offset = b.value? type (position + offset) := by
  have whole := le_of_slice? read
  obtain ⟨rfl, front, back, split, rfl⟩ := slice?_eq_some_iff.mp read
  have inBytes : offset + type.width ≤ bytes.toArray.size := by simpa using inside
  obtain ⟨part, found, length⟩ := slice?_of_le inBytes
  obtain ⟨_, front', back', split', rfl⟩ := slice?_eq_some_iff.mp found
  have found' : b.slice? (front.length + front'.length) type.width = some part := by
    refine slice?_eq_some_iff.mpr ⟨length, front ++ front', back' ++ back, ?_, by simp⟩
    rw [split, show bytes = front' ++ (part ++ back') from split']
    simp only [List.append_assoc]
  simp only [value?, nat?, found, found']

namespace SameShape
variable {s : Schema} {position id : Nat} (h : b.SameShape s position id b')
include h

theorem table?_map {holder nested : Nat} (holds : b.Holds s position id (.table nested) holder) :
    (b'.table? holder).map TableView.position = (b.table? holder).map TableView.position := by
  simp only [Buffer.table?, h.target? holds rfl, h.size]
  cases b.target? holder with
  | none => rfl
  | some target =>
    simp only [Option.bind_some]
    split <;> rfl

section
variable (texts : ∀ p n, b.Text s position id p n → b.SameAt b' p n)
include texts

theorem string? {holder : Nat} (holds : b.Holds s position id .string holder) :
    b'.string? holder = b.string? holder := by
  simp only [Buffer.string?, h.target? holds rfl, Option.bind_eq_bind]
  apply Option.bind_congr
  intro target leads
  rw [h.stringLength holds leads]
  apply Option.bind_congr
  intro length counted
  rw [(texts _ _ (.of_holds holds leads counted)).slice? h.size]

/-- An element of a vector has the same outline. -/
private theorem itemOutline {holder target length j : Nat} {e : ElementType}
    (holds : b.Holds s position id (.vector e) holder) (leads : b.target? holder = some target)
    (counted : b.nat? target offsetSize = some length) (inside : j < length) :
    (FieldVector.get? ⟨b', target + offsetSize, length, e, s.elementScalarType? e⟩ j).map
        FieldValue.itemOutline =
      (FieldVector.get? ⟨b, target + offsetSize, length, e, s.elementScalarType? e⟩ j).map
        FieldValue.itemOutline := by
  have member := (Buffer.mem_elementHolders leads counted).mpr ⟨j, inside, rfl⟩
  have scalar (type : ScalarType) (p : Nat) :
      ((b'.value? type p).map FieldValue.scalar).map FieldValue.itemOutline =
        ((b.value? type p).map FieldValue.scalar).map FieldValue.itemOutline := by
    have same := congrArg (Option.map Outline.scalar) (value?_map_type h.size type p)
    rw [Option.map_map, Option.map_map] at same ⊢
    exact same
  simp only [FieldVector.get?, if_pos inside]
  cases e with
  | string => rw [h.string? texts (.string holds member)]
  | table nested =>
    have same := congrArg (Option.map (Outline.table · nested)) (h.table?_map (.table holds member))
    rw [Option.map_map, Option.map_map] at same ⊢
    exact same
  | scalar type => exact scalar type _
  | enum enum =>
    cases s.elementScalarType? (.enum enum) with
    | none => rfl
    | some type => exact scalar type _

/-- What a field stores has the same outline. -/
private theorem stored {holder : Nat} {type : FieldType}
    (holds : b.Holds s position id type holder) :
    (TableView.stored? ⟨b', position⟩ s type holder).map FieldValue.outline =
      (TableView.stored? ⟨b, position⟩ s type holder).map FieldValue.outline := by
  cases type with
  | scalar t | enum enum => rfl
  | string => simp only [TableView.stored?, h.string? texts holds]
  | table nested =>
    have same := congrArg (Option.map (Outline.table · nested)) (h.table?_map holds)
    rw [TableView.stored?, TableView.stored?, Option.map_map, Option.map_map]
    rw [Option.map_map, Option.map_map] at same
    exact same
  | struct struct =>
    have some := slice?_isSome h.size holder (s.inlineWidth (.struct struct))
    simp only [TableView.stored?, Option.map_map]
    cases read : b.slice? holder (s.inlineWidth (.struct struct)) with
    | none =>
      rw [read, Option.isSome_none, Option.isSome_eq_false_iff, Option.isNone_iff_eq_none] at some
      rw [some]
    | some bytes =>
      rw [read, Option.isSome_some, Option.isSome_iff_exists] at some
      obtain ⟨bytes', read'⟩ := some
      rw [read']
      rfl
  | vector e =>
    simp only [TableView.stored?, h.target? holds rfl]
    cases leads : b.target? holder with
    | none => rfl
    | some target =>
      simp only [Option.bind_some, FieldVector.at?, Buffer.elements?, h.vectorLength holds leads,
        h.size, Option.bind_eq_bind]
      cases counted : b.nat? target offsetSize with
      | none => rfl
      | some length =>
        simp only [Option.bind_some]
        split
        · simp only [Option.bind_some, Option.pure_def, Option.map_some, FieldValue.outline]
          refine congrArg (fun items => some (Outline.vector _ _ items)) (List.map_congr_left ?_)
          intro j inside
          exact h.itemOutline texts holds leads counted (List.mem_range.mp inside)
        · rfl

omit texts in
/-- A scalar that is stored is read as one of its type, and what is read for one that is not stored is
no matter of the buffer. -/
private theorem outline_scalar {i : Nat} {f : FieldDef} {type : ScalarType}
    (found : s.field? id i = some f) (live : f.deprecated = false)
    (scalar : s.scalarType? f.type = some type) :
    (TableView.field ⟨b', position⟩ s id i).outline =
      (TableView.field ⟨b, position⟩ s id i).outline := by
  rw [TableView.field_of_scalar found live scalar, TableView.field_of_scalar found live scalar]
  simp only [TableView.scalarField?, h.fieldPosition? found]
  cases place : b.fieldPosition? position i with
  | none => rfl
  | some holder =>
    have same := value?_map_type h.size type holder
    simp only [Option.bind_some]
    cases read : b.value? type holder with
    | none =>
      rw [read, Option.map_none, Option.map_eq_none_iff] at same
      rw [same]
    | some v =>
      rw [read, Option.map_some, Option.map_eq_some_iff] at same
      obtain ⟨v', read', type⟩ := same
      rw [read']
      exact congrArg Outline.scalar type

/-- Every field reads as before apart from its scalars. -/
theorem outline_field (i : Nat) :
    (TableView.field ⟨b', position⟩ s id i).outline =
      (TableView.field ⟨b, position⟩ s id i).outline := by
  cases found : s.field? id i with
  | none => simp only [TableView.field, found]
  | some f =>
    cases live : f.deprecated with
    | true => simp only [TableView.field, found, live, if_true]
    | false =>
      cases fixed : f.type.isFixedWidth with
      | false =>
        rw [TableView.field_of_stored found live fixed, TableView.field_of_stored found live fixed]
        dsimp only
        rw [h.fieldPosition? found]
        cases place : b.fieldPosition? position i with
        | none => rfl
        | some holder =>
          have same := h.stored texts (.field found place)
          simp only [Option.bind_some]
          cases read : TableView.stored? ⟨b, position⟩ s f.type holder with
          | none =>
            rw [read, Option.map_none, Option.map_eq_none_iff] at same
            rw [same]
          | some value =>
            rw [read, Option.map_some, Option.map_eq_some_iff] at same
            obtain ⟨value', read', outline⟩ := same
            rw [read', Option.getD_some, Option.getD_some, outline]
      | true =>
        cases scalar : s.scalarType? f.type with
        | none =>
          rw [TableView.field_of_fixed found live fixed, TableView.field_of_fixed found live fixed,
            scalar]
          rfl
        | some type => exact h.outline_scalar found live scalar

end
/-- What can be changed is stored at the same places in a buffer of the same shape. -/
theorem cellAt_iff {c : Cell} {p : Nat} {type : ScalarType} :
    b'.CellAt s position id c p type ↔ b.CellAt s position id c p type := by
  constructor
  · intro given
    cases given with
    | field found live scalar place =>
      rw [h.fieldPosition? found] at place
      exact .field found live scalar place
    | member found live isStruct declared member inside place =>
      rw [h.fieldPosition? found] at place
      exact .member found live isStruct declared member inside place
    | element found live isVector scalar place leads counted inside =>
      rw [h.fieldPosition? found] at place
      have holds : b.Holds s position id _ _ := .field found place
      rw [isVector] at holds
      rw [h.target? holds rfl] at leads
      rw [h.vectorLength holds leads] at counted
      exact .element found live isVector scalar place leads counted inside
  · intro given
    cases given with
    | field found live scalar place =>
      exact .field found live scalar ((h.fieldPosition? found).trans place)
    | member found live isStruct declared member inside place =>
      exact .member found live isStruct declared member inside
        ((h.fieldPosition? found).trans place)
    | element found live isVector scalar place leads counted inside =>
      have holds : b.Holds s position id _ _ := .field found place
      rw [isVector] at holds
      exact .element found live isVector scalar ((h.fieldPosition? found).trans place)
        ((h.target? holds rfl).trans leads) ((h.vectorLength holds leads).trans counted) inside

end SameShape

section
variable {s : Schema} {position id : Nat} {c : Cell}

/-- What is not stored reads the same in all buffers of the same shape. -/
private theorem cell?_of_not_cellAt (absent : ∀ p type, ¬ b.CellAt s position id c p type) :
    ∃ x, ∀ b', b.SameShape s position id b' → TableView.cell? ⟨b', position⟩ s id c = x := by
  have unread {b' : Buffer} (h : b.SameShape s position id b')
      (stored : ∀ v, TableView.cell? ⟨b', position⟩ s id c = some v →
        ∃ p type, b'.CellAt s position id c p type) :
      TableView.cell? ⟨b', position⟩ s id c = none := by
    rw [Option.eq_none_iff_forall_ne_some]
    intro v read
    obtain ⟨p, type, cell⟩ := stored v read
    exact absent p type (h.cellAt_iff.mp cell)
  cases c with
  | member i j => exact ⟨none, fun b' h => unread h fun v => TableView.exists_cellAt_member⟩
  | element i j => exact ⟨none, fun b' h => unread h fun v => TableView.exists_cellAt_element⟩
  | field i =>
    cases found : s.field? id i with
    | none => exact ⟨none, fun b' _ => by simp only [TableView.cell?, TableView.field, found]; rfl⟩
    | some f =>
      cases live : f.deprecated with
      | true =>
        refine ⟨none, fun b' _ => ?_⟩
        simp only [TableView.cell?, TableView.field, found, live, if_true]
        rfl
      | false =>
        cases fixed : f.type.isFixedWidth with
        | false =>
          refine ⟨none, fun b' _ => ?_⟩
          rw [TableView.cell?, TableView.field_of_stored found live fixed]
          cases read : (Buffer.fieldPosition? b' position i).bind
              (TableView.stored? ⟨b', position⟩ s f.type) with
          | none => rfl
          | some value =>
            obtain ⟨holder, _, stored⟩ := Option.bind_eq_some_iff.mp read
            exact TableView.scalar?_of_stored? stored
        | true =>
          cases scalar : s.scalarType? f.type with
          | none =>
            refine ⟨none, fun b' _ => ?_⟩
            rw [TableView.cell?, TableView.field_of_fixed found live fixed, scalar]
            rfl
          | some type =>
            refine ⟨(((s.fieldDefault? id i).map FieldValue.scalar).getD .absent).scalar?,
              fun b' h => ?_⟩
            have place : b.fieldPosition? position i = none := by
              rw [Option.eq_none_iff_forall_ne_some]
              exact fun holder place => absent _ _ (.field found live scalar place)
            rw [TableView.cell?, TableView.field_of_scalar found live scalar, TableView.scalarField?,
              h.fieldPosition? found, place, Option.bind_none]

end
end Buffer

namespace Walk
variable {w : Walk} {b' : Buffer} {position id p : Nat} {c : Cell} {type : ScalarType}

/-- A vector is read where the reference leads to. -/
theorem TableAt.field_vector {i holder target length : Nat} {f : FieldDef} {e : ElementType}
    (table : w.TableAt position id) (same : w.buffer.SameShape w.schema position id b')
    (found : w.schema.field? id i = some f) (live : f.deprecated = false)
    (isVector : f.type = .vector e) (place : w.buffer.fieldPosition? position i = some holder)
    (leads : w.buffer.target? holder = some target)
    (counted : w.buffer.nat? target offsetSize = some length) :
    TableView.field ⟨b', position⟩ w.schema id i =
      .vector ⟨b', target + offsetSize, length, e, w.schema.elementScalarType? e⟩ := by
  obtain ⟨_, stored⟩ := table.fieldWithin found place
  have holds : w.buffer.Holds w.schema position id _ _ := .field found place
  rw [isVector] at stored holds
  obtain ⟨target', length', refers, vector, _⟩ := stored
  obtain rfl : target = target' := Option.some.inj (leads.symm.trans refers.read)
  obtain rfl : length = length' := Option.some.inj (counted.symm.trans vector.counted)
  have read : FieldVector.at? w.schema b' e target =
      some ⟨b', target + offsetSize, length, e, w.schema.elementScalarType? e⟩ :=
    FieldVector.at?_eq_some_iff.mpr ⟨length, (same.vectorLength holds leads).trans counted,
      same.size ▸ vector.inside, rfl⟩
  rw [TableView.field_of_stored found live (by rw [isVector]; rfl)]
  simp only [same.fieldPosition? found, place, Option.bind_some, isVector, TableView.stored?,
    same.target? holds rfl, leads, read, Option.map_some, Option.getD_some]

/-- An element that can be changed is one of a vector that is read. -/
theorem TableAt.exists_vector {i j : Nat} (table : w.TableAt position id)
    (same : w.buffer.SameShape w.schema position id b')
    (cell : w.buffer.CellAt w.schema position id (.element i j) p type) :
    ∃ u, TableView.field ⟨b', position⟩ w.schema id i = .vector u ∧
      p = u.start + j * type.width := by
  cases cell with
  | element found live isVector scalar place leads counted inside =>
    exact ⟨_, table.field_vector same found live isVector place leads counted, rfl⟩

/-- What is stored is read from where it is stored. -/
theorem TableAt.cell?_eq (table : w.TableAt position id)
    (same : w.buffer.SameShape w.schema position id b')
    (cell : w.buffer.CellAt w.schema position id c p type) :
    TableView.cell? ⟨b', position⟩ w.schema id c = b'.value? type p := by
  cases cell with
  | field found live scalar place =>
    obtain ⟨v, read, _⟩ := table.scalar found live scalar place
    have stored := Buffer.value?_map_type same.size type p
    rw [read, Option.map_some, Option.map_eq_some_iff] at stored
    obtain ⟨v', read', _⟩ := stored
    rw [TableView.cell?, TableView.field_of_scalar found live scalar]
    simp only [TableView.scalarField?, same.fieldPosition? found, place, Option.bind_some, read']
    rfl
  | @member i j holder offset f struct d m found live isStruct declared member inside place =>
    obtain ⟨within, _⟩ := table.fieldWithin found place
    have width : w.schema.inlineWidth f.type = d.size := by
      rw [isStruct, Schema.inlineWidth, declared, Option.map_some, Option.getD_some]
    obtain ⟨bytes, read, _⟩ := Buffer.slice?_of_le (same.size ▸ within)
    have fits := StructDef.offset_add_width_le_size member inside
    rw [← width] at fits
    have compound : f.type.isFixedWidth = false := by rw [isStruct]; rfl
    rw [TableView.cell?, TableView.field_of_stored found live compound]
    simp only [same.fieldPosition? found, place, Option.bind_some, isStruct, TableView.stored?]
    rw [← isStruct, read]
    simp only [Option.map_some, Option.getD_some, StructView.member?, declared, member, inside,
      Option.bind_eq_bind, Option.bind_some]
    exact Buffer.value?_of_slice read fits
  | @element i j holder target length f e type found live isVector scalar place leads counted
      inside =>
    rw [TableView.cell?, table.field_vector same found live isVector place leads counted]
    simp only [FieldVector.get?, if_pos inside, scalar]
    have read : ((b'.value? type (target + offsetSize + j * type.width)).map
        FieldValue.scalar).bind FieldValue.scalar? =
          b'.value? type (target + offsetSize + j * type.width) := by
      cases b'.value? type (target + offsetSize + j * type.width) <;> rfl
    cases e with
    | scalar | enum => exact read
    | string | table => cases scalar

/-- A scalar reads the same in two buffers of the same shape if its bytes do. -/
theorem TableAt.cell?_congr {b'' : Buffer} (table : w.TableAt position id)
    (same : w.buffer.SameShape w.schema position id b')
    (same' : w.buffer.SameShape w.schema position id b'')
    (stays : ∀ p type, w.buffer.CellAt w.schema position id c p type →
      b''.value? type p = b'.value? type p) :
    TableView.cell? ⟨b'', position⟩ w.schema id c = TableView.cell? ⟨b', position⟩ w.schema id c := by
  by_cases stored : ∃ p type, w.buffer.CellAt w.schema position id c p type
  · obtain ⟨p, type, cell⟩ := stored
    rw [table.cell?_eq same cell, table.cell?_eq same' cell, stays p type cell]
  · obtain ⟨x, read⟩ := Buffer.cell?_of_not_cellAt
      fun p type cell => stored ⟨p, type, cell⟩
    rw [read b' same, read b'' same']

end Walk
end FlatTable

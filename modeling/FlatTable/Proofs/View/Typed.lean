import FlatTable.Proofs.View.Readable

/-! Code that knows the schema beforehand reads a field by its place in the vtable and by its type. Whatever the
bytes are, it reads what reading by the schema gives. -/
namespace FlatTable
open Layout

section
variable {α : Type} {read : Nat → Option α}

/-- The list is what `read` gives for 0, 1, 2 and so on, up to the first number for which it gives nothing. -/
structure Enumerates (read : Nat → Option α) (items : List α) : Prop where
  reads : ∀ i a, items[i]? = some a → read i = some a
  ends : read items.length = none

/-- Where there is nothing from `count` on, nothing is missed by stopping there. -/
theorem enumerates_readWhile {count : Nat} (outside : ∀ i, count ≤ i → read i = none) :
    Enumerates read (readWhile read 0 count) := by
  refine ⟨fun i a found => by rw [← read_of_readWhile i found, Nat.zero_add], ?_⟩
  rcases Nat.lt_or_eq_of_le (@length_readWhile_le _ read 0 count) with short | whole
  · rw [← read_length_readWhile short, Nat.zero_add]
  · exact outside _ (Nat.le_of_eq whole.symm)

end

def Schema.elementKind? (s : Schema) : ElementType → Option ElementKind
  | .scalar t => some (.scalar t)
  | .enum id => (s.underlying? id).map .scalar
  | .string => some .string
  | .table _ => some .table

def Item.asField : ElementType → Item → FieldValue
  | _, .scalar v => .scalar v
  | _, .string text => .string text
  | .table id, .table t => .table t id
  | _, .table _ => .absent

/-- The vector, read without the schema, is the one that the schema's reading gives: it is as long, has the same
element at each index, and is iterated to the same end, which is the first element that cannot be read. -/
structure VectorView.Agrees (v : VectorView) (element : ElementType) (w : FieldVector) : Prop where
  length : w.length = v.length
  get : ∀ i, w.get? i = (v.get? i).map (Item.asField element)
  items : w.items = v.items.map (Item.asField element)
  enumerates : Enumerates v.get? v.items

/-- The value is what the reader of the field's type finds at the vtable's entry at `slot`. Nothing is said of
structs, which have no such reader. -/
def TableView.ReadsTyped (t : TableView) (s : Schema) (slot : Nat) (default : Option Value)
    (type : FieldType) (value : FieldValue) : Prop :=
  match type with
  | .scalar _ | .enum _ => ∃ d, default = some d ∧ s.scalarType? type = some d.type ∧
      value = .scalar (t.scalar slot d)
  | .string => value = ((t.string? slot).map .string).getD .absent
  | .table id => value = ((t.table? slot).map (.table · id)).getD .absent
  | .vector e => ∃ kind, s.elementKind? e = some kind ∧
      match t.vector? slot kind with
      | none => value = .absent
      | some v => ∃ w, value = .vector w ∧ v.Agrees e w
  | .struct _ => True

namespace VectorView
variable {v : VectorView}

theorem enumerates_items (v : VectorView) : Enumerates v.get? v.items :=
  enumerates_readWhile fun _ outside => by rw [get?, if_neg (Nat.not_lt.mpr outside)]

/-- Agreement on each element is agreement on all. -/
theorem agrees_of_get {element : ElementType} {w : FieldVector} (length : w.length = v.length)
    (get : ∀ i, w.get? i = (v.get? i).map (Item.asField element)) : v.Agrees element w := by
  refine ⟨length, get, ?_, v.enumerates_items⟩
  rw [FieldVector.items, items, ← readWhile_map, length, show w.get? = _ from funext get]

end VectorView

namespace Schema
variable {s : Schema} {element : ElementType} {kind : ElementKind}

/-- The elements of a vector whose type exists are of some kind. -/
theorem Resolves.elementKind (resolves : s.Resolves (.vector element)) :
    ∃ kind, s.elementKind? element = some kind := by
  cases element with
  | scalar t => exact ⟨.scalar t, rfl⟩
  | enum id =>
    obtain ⟨t, underlying⟩ := (show s.Resolves (.enum id) from resolves).underlying
    exact ⟨.scalar t, by rw [elementKind?, underlying, Option.map_some]⟩
  | string => exact ⟨.string, rfl⟩
  | table id => exact ⟨.table, rfl⟩

theorem elementWidth_of_kind (same : s.elementKind? element = some kind) :
    s.elementWidth element = kind.width := by
  cases element with
  | scalar t | string | table id =>
    obtain rfl := Option.some.inj same
    rfl
  | enum id =>
    obtain ⟨t, underlying, rfl⟩ := Option.map_eq_some_iff.mp same
    simp only [elementWidth, elementScalarType?, underlying, Option.map_some, Option.getD_some, ElementKind.width]

/-- Both readers find the same element at each index. -/
theorem get?_of_kind (same : s.elementKind? element = some kind) (b : Buffer) (start length i : Nat) :
    FieldVector.get? ⟨b, start, length, element, s.elementScalarType? element⟩ i =
      (VectorView.get? ⟨b, kind, start, length⟩ i).map (Item.asField element) := by
  simp only [FieldVector.get?, VectorView.get?]
  split
  · cases element with
    | scalar t | string | table id =>
      obtain rfl := Option.some.inj same
      simp only [Buffer.item?, ElementKind.width, elementScalarType?, Option.map_map]
      rfl
    | enum id =>
      obtain ⟨t, underlying, rfl⟩ := Option.map_eq_some_iff.mp same
      simp only [Buffer.item?, ElementKind.width, elementScalarType?, underlying, Option.map_map]
      rfl
  · rfl

end Schema

namespace TableView
variable {s : Schema} {table i : Nat} {f : FieldDef}

private theorem string_agrees (t : TableView) (slot : Nat) :
    (t.fieldPosition? slot).bind (t.stored? s .string) = (t.string? slot).map .string := by
  unfold string?
  cases t.fieldPosition? slot <;> rfl

private theorem table_agrees (t : TableView) (slot id : Nat) :
    (t.fieldPosition? slot).bind (t.stored? s (.table id)) = (t.table? slot).map (.table · id) := by
  unfold table?
  cases t.fieldPosition? slot <;> rfl

/-- Both readers find a vector, or neither does. -/
private theorem vector_agrees {element : ElementType} {kind : ElementKind}
    (same : s.elementKind? element = some kind) (t : TableView) (slot : Nat) :
    match t.vector? slot kind with
    | none => (t.fieldPosition? slot).bind (t.stored? s (.vector element)) = none
    | some v => ∃ w, (t.fieldPosition? slot).bind (t.stored? s (.vector element)) = some (.vector w) ∧
        v.Agrees element w := by
  have width := Schema.elementWidth_of_kind same
  unfold vector?
  simp only [Option.bind_eq_bind]
  cases t.fieldPosition? slot with
  | none => rfl
  | some pos =>
    simp only [Option.bind_some, stored?]
    cases t.buffer.target? pos with
    | none => rfl
    | some start =>
      simp only [Option.bind_some, FieldVector.at?, width, Option.bind_eq_bind]
      cases t.buffer.elements? kind.width start with
      | none => rfl
      | some elements =>
        obtain ⟨length, first⟩ := elements
        exact ⟨_, rfl, VectorView.agrees_of_get rfl (Schema.get?_of_kind same t.buffer first length)⟩

/-- The vtable's entry of a field is found by either number. -/
private theorem fieldPosition?_slot (t : TableView) (i : Nat) :
    t.buffer.fieldPosition? t.position i = t.fieldPosition? (4 + 2 * i) := by
  have slot : slotOf i = 4 + 2 * i := by
    simp only [slotOf, vtableHeader, slotSize]
    omega
  rw [← slot]
  rfl

private theorem slot_le (valid : s.Valid) (known : s.field? table i = some f) : 4 + 2 * i ≤ maxInline := by
  obtain ⟨d, isTable, isField⟩ := Option.bind_eq_some_iff.mp known
  have few := (valid.table isTable).few
  have inside := (Array.getElem?_eq_some_iff.mp isField).1
  simp only [maxFields, maxInline, vtableHeader, slotSize] at few ⊢
  omega

/-- Numbers are read with their default. -/
private theorem field_eq_scalar (valid : s.Valid) (known : s.field? table i = some f)
    (live : f.deprecated = false) (isFixed : f.type.isFixedWidth) (t : TableView) :
    ∃ d, s.fieldDefault? table i = some d ∧ s.scalarType? f.type = some d.type ∧
      t.field s table i = .scalar (t.scalar (4 + 2 * i) d) := by
  obtain ⟨type, scalar⟩ := valid.scalarType known isFixed
  obtain ⟨d, default, rfl⟩ := valid.fieldDefault known scalar
  refine ⟨d, default, scalar, ?_⟩
  rw [field_of_scalar known live scalar, scalarField?, fieldPosition?_slot, default, TableView.scalar, scalar?]
  cases (t.fieldPosition? (4 + 2 * i)).bind (t.buffer.value? d.type) <;> rfl

/-- Everything else is read where the entry says, if it says where. -/
private theorem field_eq_stored (known : s.field? table i = some f) (live : f.deprecated = false)
    (stored : f.type.isFixedWidth = false) (t : TableView) :
    t.field s table i = ((t.fieldPosition? (4 + 2 * i)).bind (t.stored? s f.type)).getD .absent := by
  rw [field_of_stored known live stored, fieldPosition?_slot]

/-- On any bytes a field reads as its typed reader finds it, and its place in the vtable fits in 16 bits. -/
theorem field_readsTyped (valid : s.validate = .ok ()) (known : s.field? table i = some f)
    (live : f.deprecated = false) (t : TableView) :
    4 + 2 * i ≤ maxInline ∧
      t.ReadsTyped s (4 + 2 * i) (s.fieldDefault? table i) f.type (t.field s table i) := by
  have valid := Schema.valid_of_validate valid
  refine ⟨slot_le valid known, ?_⟩
  have fixed := fun isFixed => field_eq_scalar valid known live isFixed t
  have other := fun stored => field_eq_stored known live stored t
  unfold ReadsTyped
  cases type : f.type with
  | scalar | enum =>
    rw [type] at fixed
    exact fixed rfl
  | string =>
    dsimp only
    rw [other (by rw [type]; rfl), type, string_agrees]
  | table id =>
    dsimp only
    rw [other (by rw [type]; rfl), type, table_agrees]
  | vector element =>
    have resolves := (valid.field known).1
    rw [type] at resolves
    obtain ⟨kind, same⟩ := resolves.elementKind
    refine ⟨kind, same, ?_⟩
    rw [other (by rw [type]; rfl), type]
    have agrees := vector_agrees same t (4 + 2 * i)
    cases read : t.vector? (4 + 2 * i) kind with
    | none =>
      rw [read] at agrees
      dsimp only at agrees ⊢
      rw [agrees, Option.getD_none]
    | some v =>
      rw [read] at agrees
      obtain ⟨w, stored, agrees⟩ := agrees
      exact ⟨w, by rw [stored, Option.getD_some], agrees⟩
  | struct => trivial

end TableView

def choir : Schema where
  nameSpace := ""
  attributes := []
  enums := #[]
  structs := #[]
  tables := #[⟨"Choir", #[.plain "voices" (.scalar .ubyte), .plain "names" (.vector .string)]⟩]
  root := some 0

/-- A choir of two names, the second of which is not UTF-8. Nothing refers to the table, so the bytes are no
buffer that verification accepts. -/
def tornChoir : TableView := ⟨#[
    8, 0, 12, 0, 0, 0, 4, 0,
    8, 0, 0, 0, 4, 0, 0, 0,
    2, 0, 0, 0, 8, 0, 0, 0, 10, 0, 0, 0,
    1, 0, 0, 0, 97, 0, 1, 0, 0, 0, 255], 8⟩

theorem tornChoir_readsTyped : choir.validate = .ok () ∧ ∃ v w, tornChoir.vector? 6 .string = some v ∧
    v.items = [.string "a"] ∧ tornChoir.field choir 0 1 = .vector w ∧ w.length = 2 ∧ w.get? 1 = none ∧
      w.items = [.string "a"] := by
  have valid : choir.validate = .ok () := rfl
  refine ⟨valid, ?_⟩
  obtain ⟨_, kind, same, typed⟩ :=
    @TableView.field_readsTyped choir 0 1 _ valid rfl rfl tornChoir
  obtain rfl := Option.some.inj same
  have found : tornChoir.vector? (4 + 2 * 1) .string = some ⟨tornChoir.buffer, .string, 20, 2⟩ := rfl
  rw [found] at typed
  obtain ⟨w, read, agrees⟩ := typed
  have items : VectorView.items ⟨tornChoir.buffer, .string, 20, 2⟩ = [.string "a"] := by decide +kernel
  refine ⟨_, w, found, items, read, agrees.length, ?_, ?_⟩
  · rw [agrees.get, show VectorView.get? _ 1 = none by decide +kernel, Option.map_none]
  · rw [agrees.items, items]
    rfl

end FlatTable

import FlatTable.Proofs.Verify.Continued
import FlatTable.Proofs.View.Beside
import FlatTable.Proofs.View.Sound

/-! Bytes behind an accepted buffer change nothing that is read: the same fields hold the same values, and
references lead to the same positions. -/
namespace FlatTable
open Layout

def FieldValue.moved (b : Buffer) : FieldValue → FieldValue
  | .vector v => .vector { v with buffer := b }
  | .table t id => .table ⟨b, t.position⟩ id
  | value => value

/-- The table reads in another buffer as it does in its own. -/
structure TableView.ContinuesIn (t : TableView) (b : Buffer) (s : Schema) (id : Nat) : Prop where
  field : ∀ i, TableView.field ⟨b, t.position⟩ s id i = (t.field s id i).moved b
  element : ∀ i v, t.field s id i = .vector v →
    ∀ j, FieldVector.get? { v with buffer := b } j = (v.get? j).map (FieldValue.moved b)

/-! ### Reads -/

namespace Buffer
variable {cut b : Buffer} (front : cut.toList <+: b.toList) {position holder : Nat}
include front

theorem value?_of_cut {type : ScalarType} {v : Value} (read : cut.value? type position = some v) :
    b.value? type position = some v := by
  obtain ⟨n, counted, rfl⟩ := Option.map_eq_some_iff.mp read
  rw [value?, nat?_of_cut front counted, Option.map_some]

theorem string?_of_cut {text : String} (read : cut.string? holder = some text) :
    b.string? holder = some text := by
  obtain ⟨start, leads, read⟩ := Option.bind_eq_some_iff.mp read
  obtain ⟨length, counted, read⟩ := Option.bind_eq_some_iff.mp read
  obtain ⟨bytes, slice, decoded⟩ := Option.bind_eq_some_iff.mp read
  simp only [string?, target?_of_cut front leads, nat?_of_cut front counted, slice?_of_cut front slice,
    Option.bind_eq_bind, Option.bind_some, decoded]

end Buffer

section
variable {b : Buffer} {s : Schema}

private theorem FieldVector.at?_moved {cut : Buffer} {e : ElementType} {target : Nat} {v : FieldVector}
    (front : cut.toList <+: b.toList) (read : FieldVector.at? s cut e target = some v) :
    FieldVector.at? s b e target = some { v with buffer := b } := by
  obtain ⟨length, counted, inside, rfl⟩ := FieldVector.at?_eq_some_iff.mp read
  exact FieldVector.at?_eq_some_iff.mpr ⟨length, Buffer.nat?_of_cut front counted,
    Nat.le_trans inside (Buffer.size_le_of_cut front), rfl⟩

private theorem TableView.stored?_moved {t : TableView} {type : FieldType} {holder : Nat}
    {value : FieldValue} (front : t.buffer.toList <+: b.toList)
    (read : t.stored? s type holder = some value) :
    TableView.stored? ⟨b, t.position⟩ s type holder = some (value.moved b) := by
  cases type with
  | scalar _ | enum _ => cases read
  | string =>
    obtain ⟨text, string, rfl⟩ := Option.map_eq_some_iff.mp read
    rw [TableView.stored?, Buffer.string?_of_cut front string, Option.map_some]
    rfl
  | table id =>
    obtain ⟨u, table, rfl⟩ := Option.map_eq_some_iff.mp read
    rw [TableView.stored?, Buffer.table?_of_cut front table, Option.map_some]
    rfl
  | struct id =>
    obtain ⟨bytes, slice, rfl⟩ := Option.map_eq_some_iff.mp read
    rw [TableView.stored?, Buffer.slice?_of_cut front slice, Option.map_some]
    rfl
  | vector e =>
    obtain ⟨v, vector, rfl⟩ := Option.map_eq_some_iff.mp read
    obtain ⟨target, leads, at'⟩ := Option.bind_eq_some_iff.mp vector
    rw [TableView.stored?, Buffer.target?_of_cut front leads, Option.bind_some,
      FieldVector.at?_moved front at', Option.map_some]
    rfl

end

namespace Walk
variable {w : Walk} {b : Buffer} {position id : Nat}

/-- What a field that is in order refers to can be read, and a struct where it is. -/
private theorem FieldAt.exists_stored (position : Nat) {type : FieldType} {holder : Nat}
    (h : w.FieldAt type holder) (inside : holder + w.schema.inlineWidth type ≤ w.buffer.size)
    (stored : type.isFixedWidth = false) :
    ∃ value, TableView.stored? ⟨w.buffer, position⟩ w.schema type holder = some value := by
  cases type with
  | scalar _ | enum _ => cases stored
  | string =>
    obtain ⟨text, read⟩ := RefersToString.string? h
    exact ⟨.string text, by rw [TableView.stored?, read, Option.map_some]⟩
  | table id =>
    obtain ⟨target, refers⟩ := h
    exact ⟨_, by rw [TableView.stored?, refers.table?, Option.map_some]⟩
  | struct id =>
    obtain ⟨bytes, read, _⟩ := Buffer.slice?_of_le inside
    exact ⟨_, by rw [TableView.stored?, read, Option.map_some]⟩
  | vector e =>
    obtain ⟨target, length, refers, vector, _⟩ := h
    have read := FieldVector.at?_eq_some_iff.mpr ⟨length, vector.counted, vector.inside, rfl⟩
    exact ⟨_, by rw [TableView.stored?, refers.read, Option.bind_some, read, Option.map_some]⟩

section
variable (front : w.buffer.toList <+: b.toList)
include front

private theorem TableAt.scalarField?_moved (table : w.TableAt position id) {i : Nat} {f : FieldDef}
    {type : ScalarType} (found : w.schema.field? id i = some f)
    (scalar : w.schema.scalarType? f.type = some type) :
    TableView.scalarField? ⟨b, position⟩ w.schema id i type =
      TableView.scalarField? ⟨w.buffer, position⟩ w.schema id i type := by
  simp only [TableView.scalarField?, table.fieldPosition?_moved front i]
  cases place : w.buffer.fieldPosition? position i with
  | none => rfl
  | some holder =>
    have inside := (table.fieldWithin found place).1
    rw [Schema.inlineWidth_of_scalar scalar] at inside
    obtain ⟨v, read, _⟩ := Buffer.value?_of_le inside
    simp only [Option.bind_some, read, Buffer.value?_of_cut front read]

/-- A field of a table that is in order reads in the longer buffer as before. -/
theorem TableAt.field_moved (table : w.TableAt position id) (i : Nat) :
    TableView.field ⟨b, position⟩ w.schema id i =
      (TableView.field ⟨w.buffer, position⟩ w.schema id i).moved b := by
  cases found : w.schema.field? id i with
  | none => simp only [TableView.field, found, FieldValue.moved]
  | some f =>
    cases live : f.deprecated with
    | true => simp only [TableView.field, found, live, if_true, FieldValue.moved]
    | false =>
      cases fixed : f.type.isFixedWidth with
      | true =>
        have reads (t : TableView) : t.field w.schema id i =
            (((w.schema.scalarType? f.type).bind (t.scalarField? w.schema id i)).map
              .scalar).getD .absent := by
          simp only [TableView.field, found, live, Bool.false_eq_true, if_false]
          cases fieldType : f.type <;> simp_all [FieldType.isFixedWidth]
        rw [reads, reads]
        cases scalar : w.schema.scalarType? f.type with
        | none => rfl
        | some type =>
          rw [Option.bind_some, Option.bind_some, table.scalarField?_moved front found scalar]
          cases TableView.scalarField? ⟨w.buffer, position⟩ w.schema id i type <;> rfl
      | false =>
        rw [TableView.field_of_stored found live fixed, TableView.field_of_stored found live fixed,
          table.fieldPosition?_moved front i]
        cases place : w.buffer.fieldPosition? position i with
        | none => rfl
        | some holder =>
          obtain ⟨inside, field⟩ := table.fieldWithin found place
          obtain ⟨value, read⟩ := field.exists_stored position inside fixed
          have read' := TableView.stored?_moved (t := ⟨w.buffer, position⟩) front read
          simp only [Option.bind_some, read, read', Option.getD_some]

/-- So do the elements of a vector that is in order. -/
private theorem VectorAt.get?_moved {e : ElementType} {start length : Nat}
    (vector : w.VectorAt e start length) (elements : w.ElementsAt e start length) (j : Nat) :
    FieldVector.get? ⟨b, start + offsetSize, length, e, w.schema.elementScalarType? e⟩ j =
      (FieldVector.get? ⟨w.buffer, start + offsetSize, length, e, w.schema.elementScalarType? e⟩ j).map
        (FieldValue.moved b) := by
  by_cases inside : j < length
  · have scalar {type : ScalarType} (h : w.schema.elementScalarType? e = some type) :
        ∃ v, w.buffer.value? type (start + offsetSize + j * type.width) = some v ∧
          b.value? type (start + offsetSize + j * type.width) = some v := by
      obtain ⟨v, read, _⟩ := Buffer.value?_of_le (vector.scalarInside h inside)
      exact ⟨v, read, Buffer.value?_of_cut front read⟩
    simp only [FieldVector.get?, if_pos inside]
    cases e with
    | scalar t =>
      obtain ⟨v, read, read'⟩ := scalar rfl
      simp only [Schema.elementScalarType?, read, read', Option.map_some, FieldValue.moved]
    | enum enum =>
      cases underlying : w.schema.elementScalarType? (.enum enum) with
      | none => rfl
      | some t =>
        obtain ⟨v, read, read'⟩ := scalar underlying
        simp only [read, read', Option.map_some, FieldValue.moved]
    | string =>
      obtain ⟨text, read⟩ := (elements j inside).string?
      simp only [read, Buffer.string?_of_cut front read, Option.map_some, FieldValue.moved]
    | table id =>
      obtain ⟨target, refers⟩ := elements j inside
      simp only [refers.table?, Buffer.table?_of_cut front refers.table?, Option.map_some,
        FieldValue.moved]
  · simp only [FieldVector.get?, if_neg inside, Option.map_none]

theorem TableAt.continuesIn (table : w.TableAt position id) :
    TableView.ContinuesIn ⟨w.buffer, position⟩ b w.schema id := by
  refine ⟨table.field_moved front, fun i v read => ?_⟩
  obtain ⟨f, holder, target, e, found, type, place, leads, at'⟩ := TableView.exists_vector read
  obtain ⟨target', length, refers, vector, elements⟩ := type ▸ (table.fieldWithin found place).2
  obtain rfl : target' = target := Option.some.inj (refers.read.symm.trans leads)
  obtain ⟨length', counted, _, rfl⟩ := FieldVector.at?_eq_some_iff.mp at'
  obtain rfl : length = length' := Option.some.inj (vector.counted.symm.trans counted)
  exact vector.get?_moved front elements

end
end Walk

/-! ### Tables that reading leads to -/

namespace Schema
variable {s : Schema} {b b' : Buffer} {position rootId : Nat}

/-- If every table that is reached continues in `b'` then the same are reached there. -/
private theorem reached_moved
    (continues : ∀ t id, s.Reached ⟨b, position⟩ rootId t id → t.buffer = b ∧ t.ContinuesIn b' s id)
    {u : TableView} {id : Nat} :
    s.Reached ⟨b', position⟩ rootId u id ↔
      ∃ t, u = ⟨b', t.position⟩ ∧ s.Reached ⟨b, position⟩ rootId t id := by
  constructor
  · intro reached
    induction reached with
    | root => exact ⟨_, rfl, .root⟩
    | @field u u' id id' i before read ih =>
      obtain ⟨t, rfl, reached⟩ := ih
      have same := (continues t id reached).2.field i
      rw [read] at same
      cases value : t.field s id i with
      | table t' found =>
        rw [value] at same
        cases same
        exact ⟨t', rfl, reached.field value⟩
      | absent | scalar _ | string _ | vector _ | struct _ =>
        rw [value] at same
        cases same
    | @element u u' id id' i j v before read get ih =>
      obtain ⟨t, rfl, reached⟩ := ih
      have same := (continues t id reached).2.field i
      rw [read] at same
      cases value : t.field s id i with
      | vector v' =>
        rw [value] at same
        cases same
        have item := (continues t id reached).2.element i v' value j
        rw [get] at item
        obtain ⟨x, here, same⟩ := Option.map_eq_some_iff.mp item.symm
        cases x with
        | table t' found =>
          cases same
          exact ⟨t', rfl, reached.element value here⟩
        | absent | scalar _ | string _ | vector _ | struct _ => cases same
      | absent | scalar _ | string _ | table _ _ | struct _ =>
        rw [value] at same
        cases same
  · rintro ⟨t, rfl, reached⟩
    induction reached with
    | root => exact .root
    | @field t t' id id' i before read ih =>
      refine .field (i := i) ih ?_
      rw [(continues t id before).2.field i, read]
      rfl
    | @element t t' id id' i j v before read get ih =>
      obtain ⟨_, same⟩ := continues t id before
      refine .element (i := i) (j := j) (v := { v with buffer := b' }) ih ?_ ?_
      · rw [same.field i, read]
        rfl
      · rw [same.element i v read j, get]
        rfl

/-- An element is the same as what it is in `b'`, if the table is that it may refer to. -/
private theorem sameItem_moved {R : TableView → TableView → Nat → Prop} {v : FieldVector} {j : Nat}
    {x : FieldValue} (get : v.get? j = some x)
    (related : ∀ t id, x = .table t id → R t ⟨b', t.position⟩ id) : x.SameItem R (x.moved b') := by
  simp only [FieldVector.get?] at get
  split at get
  · split at get
    · obtain ⟨text, _, rfl⟩ := Option.map_eq_some_iff.mp get
      exact .string text
    · obtain ⟨t, _, rfl⟩ := Option.map_eq_some_iff.mp get
      exact .table (related t _ rfl)
    · obtain ⟨value, _, rfl⟩ := Option.map_eq_some_iff.mp get
      exact .scalar value
    · cases get
  · cases get

private theorem tableJson_moved
    (continues : ∀ t id, s.Reached ⟨b, position⟩ rootId t id → t.buffer = b ∧ t.ContinuesIn b' s id) :
    s.tableJson ⟨b', position⟩ rootId = s.tableJson ⟨b, position⟩ rootId := by
  refine (tableJson_eq_of_same (R := fun t u id => s.Reached ⟨b, position⟩ rootId t id ∧
    u = ⟨b', t.position⟩) (fun t u id related i => ?_) ⟨.root, rfl⟩).symm
  obtain ⟨reached, rfl⟩ := related
  obtain ⟨_, same⟩ := continues t id reached
  rw [same.field i]
  cases value : t.field s id i with
  | absent => exact .absent
  | scalar v => exact .item (.scalar v)
  | string text => exact .item (.string text)
  | table t' found => exact .item (.table ⟨reached.field value, rfl⟩)
  | struct view => exact .struct rfl fun _ => rfl
  | vector v =>
    refine .vector rfl fun j => ?_
    rw [same.element i v value j]
    cases get : v.get? j with
    | none => exact .none
    | some x =>
      refine .some (sameItem_moved get fun t' found isTable => ⟨?_, rfl⟩)
      exact reached.element value (isTable ▸ get)

end Schema

namespace Verifier

/-- Bytes behind an accepted buffer are irrelevant, as long as it does not get too large: the root is the same,
reading leads to the same tables, they read the same, and so does the rendering. A buffer of a permitted size
that is not accepted has therefore no front that is. -/
theorem trailing_irrelevant (v : Verifier) :
    (∀ b x : Buffer, ∀ root, v.verify b = .ok root → (b ++ x).size ≤ v.options.maxBufferSize →
      v.verify (b ++ x) = .ok root ∧
        (∀ t id, v.schema.Reached ⟨b, root.position⟩ root.table t id →
          t.buffer = b ∧ t.ContinuesIn (b ++ x) v.schema id) ∧
        (∀ u id, v.schema.Reached ⟨b ++ x, root.position⟩ root.table u id ↔
          ∃ t, u = ⟨b ++ x, t.position⟩ ∧ v.schema.Reached ⟨b, root.position⟩ root.table t id) ∧
        v.schema.tableJson ⟨b ++ x, root.position⟩ root.table =
          v.schema.tableJson ⟨b, root.position⟩ root.table) ∧
      ∀ c : Buffer, c.size ≤ v.options.maxBufferSize → v.accepts c = false →
        ∀ front : Buffer, front.toList <+: c.toList → v.accepts front = false := by
  refine ⟨fun b x root accepted small => ?_, fun c small refused front isFront => ?_⟩
  · have isFront : b.toList <+: (b ++ x).toList := ⟨x.toList, by rw [Array.toList_append]⟩
    obtain ⟨_, _, _, wellFormed, _⟩ := verify_eq_ok_iff.mp accepted
    have continues (t : TableView) (id : Nat)
        (reached : v.schema.Reached ⟨b, root.position⟩ root.table t id) :
        t.buffer = b ∧ t.ContinuesIn (b ++ x) v.schema id := by
      obtain ⟨same, table⟩ := Walk.WellFormed.of_reached (w := v.walk b) rfl wellFormed reached
      obtain ⟨buffer, position⟩ := t
      obtain rfl : buffer = b := same
      exact ⟨rfl, table.table.continuesIn isFront⟩
    exact ⟨verify_of_cut isFront accepted small, continues, fun u id => Schema.reached_moved continues,
      Schema.tableJson_moved continues⟩
  · by_contra accepted
    rw [Bool.not_eq_false] at accepted
    unfold accepts at accepted refused
    cases verdict : v.verify front with
    | error e =>
      rw [verdict] at accepted
      cases accepted
    | ok root =>
      rw [verify_of_cut isFront verdict small] at refused
      cases refused

/-- Two nodes with three bytes behind them. -/
theorem trailing_irrelevant_nodes :
    nodeVerifier.verify (twoNodes ++ #[1, 2, 3]) = .ok ⟨16, 0⟩ ∧
      nodeVerifier.schema.tableJson ⟨twoNodes ++ #[1, 2, 3], 16⟩ 0 =
        nodeVerifier.schema.tableJson ⟨twoNodes, 16⟩ 0 ∧
      nodeVerifier.accepts (#[0, 0, 0, 0, 9] : Buffer) = false ∧
      nodeVerifier.accepts (#[0, 0, 0, 0] : Buffer) = false := by
  obtain ⟨continued, refused⟩ := trailing_irrelevant nodeVerifier
  obtain ⟨accepted, _, _, rendered⟩ := continued twoNodes #[1, 2, 3] ⟨16, 0⟩ rfl (by decide)
  exact ⟨accepted, rendered, rfl, refused #[0, 0, 0, 0, 9] (by decide) rfl _ ⟨[9], rfl⟩⟩

end Verifier
end FlatTable

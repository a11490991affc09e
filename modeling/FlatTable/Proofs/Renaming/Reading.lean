import FlatTable.Proofs.View.Rendered
import FlatTable.Proofs.Renaming.Basic
import FlatTable.Verify.Basic

/-! New numbers for the declarations change neither what is accepted nor what is rendered. -/
namespace FlatTable

namespace Renaming

def fieldVector (r : Renaming) (v : FieldVector) : FieldVector :=
  { v with element := r.element v.element }

def fieldValue (r : Renaming) : FieldValue → FieldValue
  | .absent => .absent
  | .scalar v => .scalar v
  | .string text => .string text
  | .vector v => .vector (r.fieldVector v)
  | .table t id => .table t (r.table id)
  | .struct v => .struct { v with id := r.struct v.id }

/-- The fields of a table keep their numbers. -/
theorem zipIdx_fields (r : Renaming) (t : TableDef) (n : Nat) :
    ((r.tableDef t).fields.extract 0 n).toList.zipIdx =
      (t.fields.extract 0 n).toList.zipIdx.map fun (f, i) => (r.field f, i) := by
  rw [tableDef, ← Array.map_extract, Array.toList_map, List.zipIdx_map]
  rfl

namespace Renames
variable {r : Renaming} {s s' : Schema} (renames : r.Renames s s')
include renames

/-! ### Verification -/

section
variable (b : Buffer) (options : VerifierOptions)
variable {nested nested' : Nat → Nat → Nat → Walk.Check Nat}
  (same : ∀ position id, nested' position (r.table id) = nested position id)
include same

theorem vector (e : ElementType) (position count : Nat) :
    Walk.vector ⟨b, s', options⟩ nested' (r.element e) position count =
      Walk.vector ⟨b, s, options⟩ nested e position count := by
  simp only [Walk.vector, renames.elementWidth]
  cases e with
  | scalar _ | enum _ | string => rfl
  | table id => simp only [element, same]; rfl

theorem walkField (position size : Nat) (f : FieldDef) (distance count : Nat) :
    Walk.field ⟨b, s', options⟩ nested' position size (r.field f) distance count =
      Walk.field ⟨b, s, options⟩ nested position size f distance count := by
  simp only [Walk.field, type_field, name_field, renames.inlineWidth, renames.inlineAlignment]
  cases f.type with
  | scalar _ | enum _ | struct _ | string => rfl
  | vector e => simp only [type, renames.vector b options same]; rfl
  | table id => simp only [type, same]; rfl

theorem tableWith (position id count : Nat) :
    Walk.tableWith ⟨b, s', options⟩ nested' position (r.table id) count =
      Walk.tableWith ⟨b, s, options⟩ nested position id count := by
  simp only [Walk.tableWith, renames.tables]
  cases s.tables[id]? with
  | none => rfl
  | some t =>
    simp only [Option.map_some, zipIdx_fields, List.foldlM_map, renames.walkField b options same]
    rfl

end

theorem table (b : Buffer) (options : VerifierOptions) (levels position id : Nat) :
    Walk.table ⟨b, s', options⟩ levels position (r.table id) =
      Walk.table ⟨b, s, options⟩ levels position id := by
  induction levels generalizing position id with
  | zero => rfl
  | succ levels ih => exact funext fun count => renames.tableWith b options ih position id count

/-- The same buffers are accepted, and the others are refused for the same reasons. -/
theorem verify (valid : s.Valid) {root : Nat} (isRoot : s.root = some root)
    (isRoot' : s'.root = some (r.table root)) (options : VerifierOptions)
    (identifier : Option Identifier) (b : Buffer) :
    (Verifier.mk s' options identifier none).verify b =
      ((Verifier.mk s options identifier none).verify b).map
        fun root => ⟨root.position, r.table root.table⟩ := by
  have asked : (Verifier.mk s options identifier none).root? = some root := valid.rootTable? isRoot
  have asked' : (Verifier.mk s' options identifier none).root? = some (r.table root) :=
    renames.rootTable? valid isRoot isRoot'
  have header : (Verifier.mk s' options identifier none).checkHeader b =
      (Verifier.mk s options identifier none).checkHeader b := rfl
  have target : (Walk.mk b s' options).target 0 = (Walk.mk b s options).target 0 := rfl
  simp only [Verifier.verify, asked, asked', header, target, renames.table]
  cases (Verifier.mk s options identifier none).checkHeader b with
  | error e => rfl
  | ok _ =>
    cases (Walk.mk b s options).target 0 with
    | error e => rfl
    | ok position =>
      simp only [ok_bind]
      cases (Walk.mk b s options).table options.maxDepth position root 0 <;> rfl

/-! ### Rendering -/

theorem at? (b : Buffer) (e : ElementType) (position : Nat) :
    FieldVector.at? s' b (r.element e) position =
      (FieldVector.at? s b e position).map r.fieldVector := by
  simp only [FieldVector.at?, renames.elementWidth, renames.elementScalarType?]
  cases b.elements? (s.elementWidth e) position <;> rfl

theorem stored? (t : TableView) (type : FieldType) (position : Nat) :
    t.stored? s' (r.type type) position = (t.stored? s type position).map r.fieldValue := by
  cases type with
  | scalar _ | enum _ => rfl
  | string | table _ =>
    simp only [TableView.stored?, Renaming.type, Option.map_map]
    rfl
  | struct id =>
    have width := renames.inlineWidth (.struct id)
    rw [Renaming.type] at width
    simp only [TableView.stored?, Renaming.type, width, Option.map_map]
    rfl
  | vector e =>
    have vector : FieldVector.at? s' t.buffer (r.element e) =
        fun start => (FieldVector.at? s t.buffer e start).map r.fieldVector :=
      funext (renames.at? t.buffer e)
    simp only [TableView.stored?, Renaming.type, vector]
    cases t.buffer.target? position with
    | none => rfl
    | some start =>
      simp only [Option.bind_some, Option.map_map]
      rfl

theorem scalarField? (t : TableView) (id i : Nat) (type : ScalarType) :
    t.scalarField? s' (r.table id) i type = t.scalarField? s id i type := by
  rw [TableView.scalarField?, renames.fieldDefault?, TableView.scalarField?]

theorem readField (t : TableView) (id i : Nat) :
    t.field s' (r.table id) i = r.fieldValue (t.field s id i) := by
  simp only [TableView.field, renames.field?]
  cases s.field? id i with
  | none => rfl
  | some f =>
    have scalar := renames.scalarType? f.type
    have read := funext (renames.stored? t f.type)
    have scalarField : t.scalarField? s' (r.table id) i = t.scalarField? s id i :=
      funext (renames.scalarField? t id i)
    obtain ⟨name, type, declared, deprecated, attributes⟩ := f
    cases deprecated with
    | true => rfl
    | false =>
      cases type with
      | scalar _ | enum _ =>
        simp only [Option.map_some, Renaming.field, Renaming.type] at scalar ⊢
        rw [scalar, scalarField]
        cases (s.scalarType? _).bind (t.scalarField? s id i) <;> rfl
      | string | vector _ | table _ | struct _ =>
        simp only [Option.map_some, Renaming.field, Renaming.type] at read ⊢
        rw [read]
        cases t.buffer.fieldPosition? t.position i with
        | none => rfl
        | some position => exact Option.getD_map r.fieldValue .absent _

theorem scalarJson (enum : Option Nat) (v : Value) :
    s'.scalarJson (enum.map r.enum) v = s.scalarJson enum v := by
  cases enum with
  | none => rfl
  | some id => simp only [Schema.scalarJson, Option.map_some, Option.bind_some, renames.enums]

theorem structJson (v : StructView) :
    s'.structJson { v with id := r.struct v.id } = s.structJson v := by
  have member (i : Nat) : StructView.member? { v with id := r.struct v.id } s' i = v.member? s i := by
    rw [StructView.member?, renames.structs, StructView.member?]
  simp only [Schema.structJson, renames.structs, member]
  rfl

omit renames in
/-- An element is read in the same way. -/
private theorem get?_fieldVector (v : FieldVector) :
    (r.fieldVector v).get? = fun i => (v.get? i).map r.fieldValue := by
  funext i
  unfold FieldVector.get?
  by_cases inside : i < v.length
  · rw [if_pos inside, if_pos (show i < (r.fieldVector v).length from inside)]
    obtain ⟨buffer, start, length, e, scalar⟩ := v
    cases e <;> cases scalar <;> simp [fieldVector, element, Function.comp_def, fieldValue]
  · rw [if_neg inside, if_neg (show ¬ i < (r.fieldVector v).length from inside)]
    rfl

omit renames in
theorem items_fieldVector (v : FieldVector) : (r.fieldVector v).items = v.items.map r.fieldValue := by
  rw [FieldVector.items, get?_fieldVector, readWhile_map]
  rfl

omit renames in
theorem enumOf?_type (type : FieldType) :
    Schema.enumOf? (r.type type) = (Schema.enumOf? type).map r.enum := by
  cases type with
  | vector e => cases e <;> rfl
  | scalar _ | enum _ | string | table _ | struct _ => rfl

section
variable {nested nested' : TableView → Nat → Json}
  (same : ∀ t id, nested' t (r.table id) = nested t id)
include same

theorem itemJson (enum : Option Nat) (value : FieldValue) :
    s'.itemJson nested' (enum.map r.enum) (r.fieldValue value) = s.itemJson nested enum value := by
  cases value with
  | scalar v => exact renames.scalarJson enum v
  | table t id => exact same t id
  | struct v => exact renames.structJson v
  | absent | string _ | vector _ => rfl

theorem valueJson (enum : Option Nat) (value : FieldValue) :
    s'.valueJson nested' (enum.map r.enum) (r.fieldValue value) = s.valueJson nested enum value := by
  have item := renames.itemJson same enum value
  cases value with
  | vector v =>
    have item := funext (renames.itemJson same enum)
    change Json.array ((r.fieldVector v).items.map _) = Json.array (v.items.map _)
    rw [items_fieldVector, List.map_map, ← item]
    rfl
  | absent | scalar _ | string _ | table _ _ | struct _ => exact item

private theorem memberJson? (t : TableView) (id : Nat) (field : FieldDef × Nat) :
    s'.memberJson? nested' t (r.table id) (r.field field.1, field.2) = s.memberJson? nested t id field := by
  unfold Schema.memberJson?
  dsimp only
  rw [renames.readField, type_field, enumOf?_type]
  have value := renames.valueJson same (Schema.enumOf? field.1.type) (t.field s id field.2)
  cases read : t.field s id field.2 with
  | absent => rfl
  | scalar _ | string _ | vector _ | table _ _ | struct _ =>
    rw [read] at value
    exact congrArg (fun json => some (field.1.name, json)) value

theorem membersJson (t : TableView) (id : Nat) :
    s'.membersJson nested' t (r.table id) = s.membersJson nested t id := by
  have renamed := renames.tables id
  cases found : s.tables[id]? with
  | none =>
    rw [found] at renamed
    simp only [Schema.membersJson, found, renamed, Option.map_none]
  | some d =>
    rw [found] at renamed
    rw [Schema.membersJson_eq found, Schema.membersJson_eq renamed]
    simp only [tableDef, Array.toList_map, List.zipIdx_map, List.filterMap_map]
    exact congrArg Json.ofMembers
      (List.filterMap_congr fun field _ => renames.memberJson? same t id field)

end

theorem tableJson (t : TableView) (id : Nat) : s'.tableJson t (r.table id) = s.tableJson t id := by
  have within (fuel : Nat) : ∀ (t : TableView) (id : Nat),
      s'.tableJsonWithin fuel t (r.table id) = s.tableJsonWithin fuel t id := by
    induction fuel with
    | zero => exact fun _ _ => rfl
    | succ fuel ih => exact renames.membersJson ih
  exact within _ t id

end Renames
end Renaming
end FlatTable

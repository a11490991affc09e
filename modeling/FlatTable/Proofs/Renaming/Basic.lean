import FlatTable.Builder.Args
import FlatTable.Convert.Import
import FlatTable.Convert.Render
import FlatTable.Proofs.Schema.Valid

/-! Schemas that declare the same under other numbers. -/
namespace FlatTable

structure Renaming where
  enum : Nat → Nat
  struct : Nat → Nat
  table : Nat → Nat

namespace Renaming

def element (r : Renaming) : ElementType → ElementType
  | .scalar t => .scalar t
  | .enum id => .enum (r.enum id)
  | .string => .string
  | .table id => .table (r.table id)

def type (r : Renaming) : FieldType → FieldType
  | .scalar t => .scalar t
  | .enum id => .enum (r.enum id)
  | .string => .string
  | .vector e => .vector (r.element e)
  | .table id => .table (r.table id)
  | .struct id => .struct (r.struct id)

def field (r : Renaming) (f : FieldDef) : FieldDef := { f with type := r.type f.type }

def tableDef (r : Renaming) (t : TableDef) : TableDef := { t with fields := t.fields.map r.field }

/-- `s'` declares what `s` declares, under the new numbers. -/
structure Renames (r : Renaming) (s s' : Schema) : Prop where
  enums : ∀ i : Nat, s'.enums[r.enum i]? = s.enums[i]?
  structs : ∀ i : Nat, s'.structs[r.struct i]? = s.structs[i]?
  tables : ∀ i : Nat, s'.tables[r.table i]? = s.tables[i]?.map r.tableDef

section
variable (r : Renaming) (f : FieldDef) (t : TableDef)

@[simp] theorem name_field : (r.field f).name = f.name := rfl
@[simp] theorem type_field : (r.field f).type = r.type f.type := rfl
@[simp] theorem declared_field : (r.field f).declared = f.declared := rfl
@[simp] theorem deprecated_field : (r.field f).deprecated = f.deprecated := rfl
@[simp] theorem size_fields_tableDef : (r.tableDef t).fields.size = t.fields.size := by
  simp [tableDef]

theorem fields_tableDef (i : Nat) : (r.tableDef t).fields[i]? = t.fields[i]?.map r.field := by
  simp [tableDef]

@[simp] theorem fieldId?_tableDef (name : String) : (r.tableDef t).fieldId? name = t.fieldId? name := by
  simp only [TableDef.fieldId?, tableDef, Array.findIdx?_map]
  rfl

end

namespace Renames

/-- What is there has the same name. -/
private theorem name_of_known {α : Type} {l l' : Array α} {i j : Nat} (known : i < l.size)
    {f g : α → String} (same : ∀ a, l[i]? = some a → (l'[j]?.map f) = some (g a)) (none none' : String) :
    (l'[j]?.map f).getD none' = (l[i]?.map g).getD none := by
  have found := Array.getElem?_eq_getElem known
  rw [same _ found, found]
  rfl

variable {r : Renaming} {s s' : Schema} (renames : r.Renames s s')
include renames

theorem field? (id i : Nat) : s'.field? (r.table id) i = (s.field? id i).map r.field := by
  rw [Schema.field?, renames.tables, Option.bind_map, Schema.field?, Option.map_bind]
  exact Option.bind_congr fun t _ => r.fields_tableDef t i

theorem underlying? (id : Nat) : s'.underlying? (r.enum id) = s.underlying? id := by
  rw [Schema.underlying?, renames.enums, Schema.underlying?]

theorem scalarType? (type : FieldType) : s'.scalarType? (r.type type) = s.scalarType? type := by
  cases type with
  | enum id => exact renames.underlying? id
  | scalar _ | string | vector _ | table _ | struct _ => rfl

theorem elementScalarType? (e : ElementType) :
    s'.elementScalarType? (r.element e) = s.elementScalarType? e := by
  cases e with
  | enum id => exact renames.underlying? id
  | scalar _ | string | table _ => rfl

theorem inlineWidth (type : FieldType) : s'.inlineWidth (r.type type) = s.inlineWidth type := by
  have scalar := renames.scalarType? type
  cases type with
  | struct id => simp only [type, Schema.inlineWidth, renames.structs]
  | scalar _ | enum _ | string | vector _ | table _ =>
    simp only [Renaming.type, Schema.inlineWidth] at scalar ⊢
    rw [scalar]

theorem inlineAlignment (type : FieldType) :
    s'.inlineAlignment (r.type type) = s.inlineAlignment type := by
  have width := renames.inlineWidth type
  cases type with
  | struct id => simp only [Renaming.type, Schema.inlineAlignment, renames.structs]
  | scalar _ | enum _ | string | vector _ | table _ => exact width

theorem elementWidth (e : ElementType) : s'.elementWidth (r.element e) = s.elementWidth e := by
  rw [Schema.elementWidth, renames.elementScalarType?, Schema.elementWidth]

theorem fieldDefault? (id i : Nat) : s'.fieldDefault? (r.table id) i = s.fieldDefault? id i := by
  simp only [Schema.fieldDefault?, renames.field?]
  cases s.field? id i with
  | none => rfl
  | some f => simp [renames.scalarType?]

theorem accepts (type : FieldType) (kind : ObjectKind) :
    s'.accepts (r.type type) kind = s.accepts type kind := by
  cases type with
  | vector e =>
    have scalar := renames.elementScalarType? e
    cases kind with
    | vector found =>
      cases found with
      | scalar t => cases e <;> simp_all [Renaming.type, element, Schema.accepts]
      | string | table => cases e <;> rfl
    | string | table => cases e <;> rfl
  | scalar _ | enum _ | string | table _ | struct _ => cases kind <;> rfl

theorem enumName {id : Nat} (known : id < s.enums.size) : s'.enumName (r.enum id) = s.enumName id :=
  name_of_known known (fun e found => by rw [renames.enums, found]; rfl) _ _

theorem structName {id : Nat} (known : id < s.structs.size) :
    s'.structName (r.struct id) = s.structName id :=
  name_of_known known (fun d found => by rw [renames.structs, found]; rfl) _ _

theorem tableName {id : Nat} (known : id < s.tables.size) :
    s'.tableName (r.table id) = s.tableName id :=
  name_of_known known (fun t found => by rw [renames.tables, found]; rfl) _ _

/-- The number of a declaration that is there shows in no name. -/
theorem typeName {type : FieldType} (resolves : s.Resolves type) :
    s'.typeName (r.type type) = s.typeName type := by
  cases type with
  | scalar _ | string => rfl
  | enum id => exact renames.enumName (resolves .enum id rfl)
  | table id => exact renames.tableName (resolves .table id rfl)
  | struct id => exact renames.structName (resolves .struct id rfl)
  | vector e =>
    have element : s'.elementTypeName (r.element e) = s.elementTypeName e := by
      cases e with
      | scalar _ | string => rfl
      | enum id => exact renames.enumName (resolves .enum id rfl)
      | table id => exact renames.tableName (resolves .table id rfl)
    exact congrArg (fun name => "[" ++ name ++ "]") element

theorem rootTable? (valid : s.Valid) {root : Nat} (isRoot : s.root = some root)
    (isRoot' : s'.root = some (r.table root)) : s'.rootTable? = some (r.table root) := by
  have found := renames.tables root
  rw [Array.getElem?_eq_getElem (valid.root root isRoot)] at found
  simp only [Schema.rootTable?, isRoot', if_pos (Array.getElem?_eq_some_iff.mp found).1]

end Renames
end Renaming
end FlatTable

import FlatTable.Proofs.Convert.Draft
import FlatTable.Proofs.Renaming.Basic

/-! New numbers for the declarations do not change what is built from JSON. -/
namespace FlatTable
open Builder

namespace Renaming

def Alike {m : Type → Type} [Monad m] (s s' : Schema) (id id' : Nat) (x x' : m TableArgs) : Prop :=
  ∃ settings : m (Array (Option Setting)),
    x = TableArgs.mk s id <$> settings ∧ x' = TableArgs.mk s' id' <$> settings

namespace Alike
variable {s s' : Schema} {id id' : Nat}

theorem lift {x x' : Except BuildError TableArgs} (alike : Alike s s' id id' x x') :
    Alike s s' id id' (liftM x : Build TableArgs) (liftM x') := by
  obtain ⟨settings, rfl, rfl⟩ := alike
  cases settings with
  | error e => exact ⟨throw e, rfl, rfl⟩
  | ok settings => exact ⟨pure settings, rfl, rfl⟩

/-- The same step may come before. -/
theorem after {α : Type} (x : Build α) {f f' : α → Build TableArgs}
    (alike : ∀ a, Alike s s' id id' (f a) (f' a)) : Alike s s' id id' (x >>= f) (x >>= f') := by
  choose settings same same' using alike
  obtain rfl : f = fun a => TableArgs.mk s id <$> settings a := funext same
  obtain rfl : f' = fun a => TableArgs.mk s' id' <$> settings a := funext same'
  exact ⟨x >>= settings, (map_bind ..).symm, (map_bind ..).symm⟩

section
variable {x x' : Build TableArgs} (alike : Alike s s' id id' x x')
include alike

theorem bind_eq {β : Type} {f f' : TableArgs → Build β}
    (same : ∀ settings, f' ⟨s', id', settings⟩ = f ⟨s, id, settings⟩) : (x' >>= f') = (x >>= f) := by
  obtain ⟨settings, rfl, rfl⟩ := alike
  rw [bind_map_left, bind_map_left]
  exact congrArg (settings >>= ·) (funext same)

theorem bind {f f' : TableArgs → Build TableArgs}
    (next : ∀ settings, Alike s s' id id' (f ⟨s, id, settings⟩) (f' ⟨s', id', settings⟩)) :
    Alike s s' id id' (x >>= f) (x' >>= f') := by
  obtain ⟨settings, rfl, rfl⟩ := alike
  rw [bind_map_left, bind_map_left]
  exact after settings next

end
end Alike

namespace Renames
variable {r : Renaming} {s s' : Schema} (renames : r.Renames s s')
include renames

/-! ### Values -/

section
variable {f : FieldDef} (resolves : s.Resolves f.type)
include resolves

omit resolves in
theorem scalarOfJson? (type : FieldType) (json : Json) :
    s'.scalarOfJson? (r.type type) json = s.scalarOfJson? type json := by
  have text (scalar : ScalarType) (text : String) :
      s'.scalarOfString? (r.type type) scalar text = s.scalarOfString? type scalar text := by
    cases type with
    | enum id => simp only [Renaming.type, Schema.scalarOfString?, renames.enums]
    | scalar _ | string | vector _ | table _ | struct _ => rfl
  simp only [Schema.scalarOfJson?, renames.scalarType?, text]

theorem scalarOfJson (json : Json) : s'.scalarOfJson (r.field f) json = s.scalarOfJson f json := by
  simp only [Schema.scalarOfJson, type_field, name_field, renames.scalarOfJson?,
    renames.typeName resolves]

omit resolves in
theorem structOfJson (f : FieldDef) (id : Nat) (json : Json) :
    s'.structOfJson (r.field f) (r.struct id) json = s.structOfJson f id json := by
  have member (type : ScalarType) (json : Json) :
      s'.scalarOfJson? (.scalar type) json = s.scalarOfJson? (.scalar type) json :=
    renames.scalarOfJson? (.scalar type) json
  simp only [Schema.structOfJson, renames.structs, name_field, member]

omit resolves in
theorem elementsOfJson (f : FieldDef) (e : ElementType) (t : ScalarType) (items : List Json) :
    s'.elementsOfJson (r.field f) (r.element e) t items = s.elementsOfJson f e t items := by
  have scalar := renames.scalarOfJson? (.scalar t)
  cases e with
  | enum id =>
    have enum := renames.scalarOfJson? (.enum id)
    simp only [Renaming.type] at enum
    simp only [Schema.elementsOfJson, element, enum]
    rfl
  | scalar _ | string | table _ =>
    simp only [Renaming.type] at scalar
    simp only [Schema.elementsOfJson, element, scalar]
    rfl

end

omit renames in
private theorem placeStrings (f : FieldDef) (items : List Json) (placed : List (Ref .string)) :
    Builder.placeStrings (r.field f) items placed = Builder.placeStrings f items placed := by
  induction items generalizing placed with
  | nil => rfl
  | cons item rest ih =>
    cases item with
    | string text => simp only [Builder.placeStrings, ih]
    | null | bool _ | integer _ | real _ | array _ | object _ => rfl

theorem placeFlat (f : FieldDef) (json : Json) :
    Builder.placeFlat s' (r.field f) json = Builder.placeFlat s f json := by
  obtain ⟨name, type, declared, deprecated, attributes⟩ := f
  cases type with
  | scalar _ | enum _ | table _ | struct _ => rfl
  | string => cases json <;> rfl
  | vector e =>
    cases json with
    | null | bool _ | integer _ | real _ | string _ | object _ => cases e <;> rfl
    | array items =>
      have scalar := renames.elementScalarType? e
      have values := renames.elementsOfJson ⟨name, .vector e, declared, deprecated, attributes⟩ e
      have strings := placeStrings (r := r) ⟨name, .vector e, declared, deprecated, attributes⟩ items []
      cases e with
      | string =>
        exact congrArg (fun strings => do return (← createStringVector (← strings)).placed) strings
      | scalar _ | enum _ | table _ =>
        simp only [Builder.placeFlat, Renaming.field, Renaming.type, element] at scalar values ⊢
        simp only [scalar, values]

/-! ### Settings -/

section
variable {id : Nat} {t : TableDef} (found : s.tables[id]? = some t)
  (settings : Array (Option Setting))
include found

theorem newArgs : Alike s s' id (r.table id) (TableArgs.new s id) (TableArgs.new s' (r.table id)) := by
  refine ⟨.ok (Array.replicate t.fields.size none), ?_, ?_⟩
  · simp only [TableArgs.new, found]
    rfl
  · simp only [TableArgs.new, renames.tables, found, Option.map_some, size_fields_tableDef]
    rfl

theorem writable (i : Nat) : TableArgs.writable ⟨s', r.table id, settings⟩ i =
    (TableArgs.writable ⟨s, id, settings⟩ i).map r.field := by
  simp only [TableArgs.writable, renames.tables, found, Option.map_some, fields_tableDef]
  cases t.fields[i]? with
  | none => rfl
  | some f =>
    obtain ⟨name, type, declared, deprecated, attributes⟩ := f
    cases deprecated <;> rfl

omit renames in
private theorem field_of_writable {i : Nat} {f : FieldDef}
    (isWritable : TableArgs.writable ⟨s, id, settings⟩ i = .ok f) : s.field? id i = some f := by
  simp only [TableArgs.writable, found] at isWritable
  split at isWritable
  · cases isWritable
  · rename_i isField
    split at isWritable
    · cases isWritable
    · cases isWritable
      rw [Schema.field?, found, Option.bind_some, isField]

omit found in
theorem structOf? (type : FieldType) :
    TableArgs.structOf? s' (r.type type) = TableArgs.structOf? s type := by
  cases type with
  | struct id => exact renames.structs id
  | scalar _ | enum _ | string | vector _ | table _ => rfl

variable (valid : s.Valid)
include valid

theorem setScalar (i : Nat) (v : Value) : Alike s s' id (r.table id)
    (TableArgs.setScalar ⟨s, id, settings⟩ i v)
    (TableArgs.setScalar ⟨s', r.table id, settings⟩ i v) := by
  simp only [TableArgs.setScalar, renames.writable found]
  cases isWritable : TableArgs.writable ⟨s, id, settings⟩ i with
  | error e => exact ⟨.error e, rfl, rfl⟩
  | ok f =>
    have resolves := (valid.field (field_of_writable found settings isWritable)).1
    simp only [Except.map, ok_bind, type_field, name_field, renames.scalarType?,
      renames.typeName resolves]
    split
    · exact ⟨.ok _, rfl, rfl⟩
    · exact ⟨.error _, rfl, rfl⟩

theorem setReference (i : Nat) (p : Placed) : Alike s s' id (r.table id)
    (TableArgs.setReference ⟨s, id, settings⟩ i p)
    (TableArgs.setReference ⟨s', r.table id, settings⟩ i p) := by
  simp only [TableArgs.setReference, renames.writable found]
  cases isWritable : TableArgs.writable ⟨s, id, settings⟩ i with
  | error e => exact ⟨.error e, rfl, rfl⟩
  | ok f =>
    have resolves := (valid.field (field_of_writable found settings isWritable)).1
    simp only [Except.map, ok_bind, type_field, name_field, renames.accepts,
      renames.typeName resolves]
    split
    · exact ⟨.ok _, rfl, rfl⟩
    · exact ⟨.error _, rfl, rfl⟩

theorem setStruct (i : Nat) (values : List Value) : Alike s s' id (r.table id)
    (TableArgs.setStruct ⟨s, id, settings⟩ i values)
    (TableArgs.setStruct ⟨s', r.table id, settings⟩ i values) := by
  simp only [TableArgs.setStruct, renames.writable found]
  cases isWritable : TableArgs.writable ⟨s, id, settings⟩ i with
  | error e => exact ⟨.error e, rfl, rfl⟩
  | ok f =>
    have resolves := (valid.field (field_of_writable found settings isWritable)).1
    simp only [Except.map, ok_bind, type_field, name_field, renames.structOf?,
      renames.typeName resolves]
    split
    · exact ⟨.error _, rfl, rfl⟩
    · split
      · exact ⟨.error _, rfl, rfl⟩
      · split
        · exact ⟨.error _, rfl, rfl⟩
        · exact ⟨.ok _, rfl, rfl⟩

end

/-! ### Tables -/

theorem isDefault (id i : Nat) (v : Value) :
    Builder.isDefault s' (r.table id) i v = Builder.isDefault s id i v := by
  rw [Builder.isDefault, renames.fieldDefault?, Builder.isDefault]

section
variable {id : Nat} {t : TableDef} (settings : Array (Option Setting))

theorem pushSetting (i : Nat) (setting : Setting) :
    Builder.pushSetting ⟨s', r.table id, settings⟩ (r.tableDef t) i setting =
      Builder.pushSetting ⟨s, id, settings⟩ t i setting := by
  cases setting with
  | scalar v => simp only [Builder.pushSetting, renames.isDefault]
  | reference p => rfl
  | struct values =>
    have struct : ((r.tableDef t).fields[i]?.bind fun f => TableArgs.structOf? s' f.type) =
        t.fields[i]?.bind fun f => TableArgs.structOf? s f.type := by
      rw [fields_tableDef, Option.bind_map]
      exact Option.bind_congr fun f _ => renames.structOf? f.type
    simp only [Builder.pushSetting, struct]
    rfl

theorem pushSettings (entries : List (Option Setting × Nat)) (written : List (Nat × Nat)) :
    Builder.pushSettings ⟨s', r.table id, settings⟩ (r.tableDef t) entries written =
      Builder.pushSettings ⟨s, id, settings⟩ t entries written := by
  induction entries generalizing written with
  | nil => rfl
  | cons entry rest ih =>
    obtain ⟨setting, i⟩ := entry
    cases setting with
    | none => exact ih written
    | some setting => simp only [Builder.pushSettings, renames.pushSetting, ih]

theorem createTable (found : s.tables[id]? = some t) :
    Builder.createTable ⟨s', r.table id, settings⟩ = Builder.createTable ⟨s, id, settings⟩ := by
  simp only [Builder.createTable, renames.tables, found, Option.map_some, renames.pushSettings]
  rfl

end

/-! ### JSON -/

section
variable (valid : s.Valid)
include valid

theorem setMember {id : Nat} {t : TableDef} (found : s.tables[id]? = some t) (i : Nat) (json : Json)
    {table table' : Nat → Build (Ref .table)}
    {tables tables' : FieldDef → Nat → Build (Ref (.vector .table))}
    (sameTable : ∀ nested < s.tables.size, table' (r.table nested) = table nested)
    (sameTables : ∀ f, ∀ nested < s.tables.size, tables' (r.field f) (r.table nested) = tables f nested)
    (settings : Array (Option Setting)) : Alike s s' id (r.table id)
      (Builder.setMember s t i json table tables ⟨s, id, settings⟩)
      (Builder.setMember s' (r.tableDef t) i json table' tables' ⟨s', r.table id, settings⟩) := by
  have refuse (e : BuildError) : Alike (m := Build) s s' id (r.table id) (throw e) (throw e) :=
    ⟨throw e, rfl, rfl⟩
  by_cases isNull : json.isNull
  · obtain rfl : json = .null := by cases json <;> first | rfl | cases isNull
    exact ⟨pure settings, rfl, rfl⟩
  have present : json.isNull = false := by simpa using isNull
  have renamed := fields_tableDef r t i
  cases isField : t.fields[i]? with
  | none =>
    rw [isField] at renamed
    cases json with
    | null => cases present
    | bool _ | integer _ | real _ | string _ | array _ | object _ =>
      unfold Builder.setMember
      rw [isField, renamed]
      exact refuse _
  | some f =>
    rw [isField] at renamed
    cases live : f.deprecated with
    | true =>
      cases json with
      | null => cases present
      | bool _ | integer _ | real _ | string _ | array _ | object _ =>
        unfold Builder.setMember
        rw [isField, renamed]
        dsimp only [Option.map_some]
        rw [deprecated_field, live]
        exact refuse _
    | false =>
      have inTable : s.field? id i = some f := by
        rw [Schema.field?, found, Option.bind_some, isField]
      have resolves : s.Resolves f.type := (valid.field inTable).1
      rw [setMember_eq isField live present, setMember_eq renamed live present, type_field]
      have refer {kind : ObjectKind} (build : Build (Ref kind)) : Alike s s' id (r.table id)
          (do TableArgs.setReference ⟨s, id, settings⟩ i (← build).placed)
          (do TableArgs.setReference ⟨s', r.table id, settings⟩ i (← build).placed) :=
        .after build fun ref => (renames.setReference found settings valid i ref.placed).lift
      have flat : Alike s s' id (r.table id)
          (do TableArgs.setReference ⟨s, id, settings⟩ i (← Builder.placeFlat s f json))
          (do
            let p ← Builder.placeFlat s' (r.field f) json
            TableArgs.setReference ⟨s', r.table id, settings⟩ i p) := by
        rw [renames.placeFlat]
        exact .after _ fun p => (renames.setReference found settings valid i p).lift
      cases type : f.type with
      | scalar _ | enum _ =>
        simp only [Renaming.type, renames.scalarOfJson resolves]
        exact .after _ fun v => (renames.setScalar found settings valid i v).lift
      | struct struct =>
        simp only [Renaming.type, renames.structOfJson]
        exact .after _ fun values => (renames.setStruct found settings valid i values).lift
      | string => exact flat
      | table nested =>
        have known := (type ▸ resolves : s.Resolves (.table nested)) .table nested rfl
        simp only [Renaming.type, sameTable nested known]
        exact refer _
      | vector e =>
        cases e with
        | scalar _ | enum _ | string => exact flat
        | table nested =>
          have known := (type ▸ resolves : s.Resolves (.vector (.table nested))) .table nested rfl
          simp only [Renaming.type, element, sameTables f nested known]
          exact refer _

end
end Renames

variable {r : Renaming} {s s' : Schema}

mutual

/-- The same table is built, or building fails alike. -/
theorem Renames.buildTable (renames : r.Renames s s') (valid : s.Valid) {id : Nat}
    (known : id < s.tables.size) (json : Json) :
    Builder.buildTable s' (r.table id) json = Builder.buildTable s id json := by
  have found := Array.getElem?_eq_getElem known
  have found' := renames.tables id
  rw [found] at found'
  match json with
  | .object members =>
    rw [Builder.buildTable, Builder.buildTable, found, found']
    refine (renames.newArgs found).lift.bind_eq fun settings => ?_
    refine (renames.setMembers valid found members settings).bind_eq fun settings => ?_
    exact renames.createTable settings found
  | .null | .bool _ | .integer _ | .real _ | .string _ | .array _ =>
    unfold Builder.buildTable
    rw [found, found']
    rfl

private theorem Renames.setMembers (renames : r.Renames s s') (valid : s.Valid)
    {id : Nat} {t : TableDef} (found : s.tables[id]? = some t) (members : List (String × Json))
    (settings : Array (Option Setting)) : Alike s s' id (r.table id)
      (Builder.setMembers s t members ⟨s, id, settings⟩)
      (Builder.setMembers s' (r.tableDef t) members ⟨s', r.table id, settings⟩) := by
  match members with
  | [] =>
    rw [Builder.setMembers, Builder.setMembers]
    exact ⟨pure settings, rfl, rfl⟩
  | (name, json) :: rest =>
    rw [Builder.setMembers, Builder.setMembers, fieldId?_tableDef]
    cases t.fieldId? name with
    | none => exact ⟨throw (.unknownField t.name name), rfl, rfl⟩
    | some i =>
      refine (renames.setMember valid found i json (fun nested known => renames.buildTable valid known json)
        (fun f nested known => renames.buildTableVector valid f known json) settings).bind fun settings => ?_
      exact renames.setMembers valid found rest settings

private theorem Renames.buildTableVector (renames : r.Renames s s') (valid : s.Valid)
    (f : FieldDef) {id : Nat} (known : id < s.tables.size) (json : Json) :
    Builder.buildTableVector s' (r.field f) (r.table id) json = Builder.buildTableVector s f id json := by
  match json with
  | .array items =>
    rw [Builder.buildTableVector, Builder.buildTableVector, renames.buildTables valid known items []]
  | .null | .bool _ | .integer _ | .real _ | .string _ | .object _ =>
    unfold Builder.buildTableVector
    rfl

private theorem Renames.buildTables (renames : r.Renames s s') (valid : s.Valid)
    {id : Nat} (known : id < s.tables.size) (items : List Json) (built : List (Ref .table)) :
    Builder.buildTables s' (r.table id) items built = Builder.buildTables s id items built := by
  match items with
  | [] => rw [Builder.buildTables, Builder.buildTables]
  | json :: rest =>
    rw [Builder.buildTables, Builder.buildTables, renames.buildTable valid known json]
    exact congrArg (Builder.buildTable s id json >>= ·)
      (funext fun table => renames.buildTables valid known rest (table :: built))

end

theorem Renames.bufferOfJson (renames : r.Renames s s') (valid : s.Valid) {root : Nat}
    (isRoot : s.root = some root) (isRoot' : s'.root = some (r.table root)) (json : Json) :
    s'.bufferOfJson json = s.bufferOfJson json := by
  simp only [Schema.bufferOfJson, renames.rootTable? valid isRoot isRoot',
    valid.rootTable? isRoot, renames.buildTable valid (valid.root root isRoot)]

end Renaming
end FlatTable

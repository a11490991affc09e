import FlatTable.Schema.Validate
import FlatTable.Proofs.Result

/-! What validation promises about a schema. -/
namespace FlatTable

def Schema.Resolves (s : Schema) (type : FieldType) : Prop :=
  ∀ kind id, Schema.reference? type = some (kind, id) → id < s.countOf kind

structure EnumDef.Valid (e : EnumDef) : Prop where
  integer : e.underlying.isInteger
  distinct : (e.values.map Enumerator.name).Nodup
  fits : ∀ v ∈ e.values, (e.underlying.ofLong? v.value).isSome

structure StructDef.Valid (d : StructDef) : Prop where
  nonempty : d.members ≠ []
  distinct : (d.members.map Member.name).Nodup

structure TableDef.Valid (s : Schema) (t : TableDef) : Prop where
  few : t.fields.size ≤ Layout.maxFields
  distinct : (t.fields.toList.map FieldDef.name).Nodup
  resolves : ∀ f ∈ t.fields.toList, s.Resolves f.type
  declared : ∀ f ∈ t.fields.toList, ∀ v, f.declared = some v → s.scalarType? f.type = some v.type

structure Schema.Valid (s : Schema) : Prop where
  enums : ∀ e ∈ s.enums.toList, e.Valid
  structs : ∀ d ∈ s.structs.toList, d.Valid
  tables : ∀ t ∈ s.tables.toList, t.Valid s
  distinct : (s.enums.toList.map EnumDef.name ++ s.structs.toList.map StructDef.name ++
    s.tables.toList.map TableDef.name).Nodup
  root : ∀ id, s.root = some id → id < s.tables.size

def Schema.Filled (s : Schema) : Prop := ∀ d ∈ s.structs.toList, d.members ≠ []

theorem Schema.Valid.filled {s : Schema} (valid : s.Valid) : s.Filled :=
  fun d member => (valid.structs d member).nonempty

theorem TableDef.exists_field {t : TableDef} {name : String} {i : Nat}
    (h : t.fieldId? name = some i) : ∃ f, t.fields[i]? = some f ∧ f.name = name := by
  obtain ⟨inside, named, _⟩ := Array.findIdx?_eq_some_iff_getElem.mp h
  exact ⟨_, Array.getElem?_eq_getElem inside, beq_iff_eq.mp named⟩

namespace Schema

theorem addName_eq_ok_iff {kind : NameKind} {shown name : String} {seen seen' : Names} :
    addName kind shown name seen = .ok seen' ↔ name ∉ seen ∧ seen' = seen.insert name := by
  unfold addName
  rw [throw_else_eq_ok_iff, Std.TreeSet.contains_iff_mem, Except.ok.injEq, @eq_comm _ seen']

/-- A declaration whose name is new and whose parts are in order. -/
theorem declare_eq_ok_iff {kind : NameKind} {shown name : String} {seen seen' : Names}
    {check : Except SchemaError Unit} :
    (do
      let seen ← addName kind shown name seen
      check
      return seen) = .ok seen' ↔ check = .ok () ∧ name ∉ seen ∧ seen' = seen.insert name := by
  simp only [bind_eq_ok_iff, exists_unit_iff, addName_eq_ok_iff]
  constructor
  · intro h
    obtain ⟨_, ⟨new, rfl⟩, ok, result⟩ := h
    cases result
    exact ⟨ok, new, rfl⟩
  · intro given
    obtain ⟨ok, new, rfl⟩ := given
    exact ⟨_, ⟨new, rfl⟩, ok, rfl⟩

/-- Declarations whose names are added one after the other have different names. -/
private theorem names_of_foldlM {α : Type} {add : Names → α → Except SchemaError Names}
    {f : α → String} {P : α → Prop} {l : List α} {seen seen' : Names}
    (h : l.foldlM add seen = .ok seen')
    (step : ∀ seen x seen', add seen x = .ok seen' →
      P x ∧ f x ∉ seen ∧ seen' = seen.insert (f x)) :
    (∀ x ∈ l, P x) ∧ (l.map f).Nodup ∧ (∀ x ∈ l, f x ∉ seen) ∧
      ∀ n, n ∈ seen' ↔ n ∈ seen ∨ n ∈ l.map f := by
  induction l generalizing seen with
  | nil =>
    cases h
    simp
  | cons x l ih =>
    rw [List.foldlM_cons, bind_eq_ok_iff] at h
    obtain ⟨next, first, rest⟩ := h
    obtain ⟨holds, new, rfl⟩ := step _ _ _ first
    obtain ⟨all, distinct, unseen, members⟩ := ih rest
    have insert (n : String) : n ∈ seen.insert (f x) ↔ f x = n ∨ n ∈ seen := by
      rw [Std.TreeSet.mem_insert, Std.LawfulEqCmp.compare_eq_iff_eq]
    refine ⟨List.forall_mem_cons.mpr ⟨holds, all⟩, List.nodup_cons.mpr ⟨?_, distinct⟩,
      List.forall_mem_cons.mpr ⟨new, ?_⟩, ?_⟩
    · intro again
      obtain ⟨y, hy, same⟩ := List.mem_map.mp again
      exact unseen y hy ((insert _).mpr (.inl same.symm))
    · intro y hy seenY
      exact unseen y hy ((insert _).mpr (.inr seenY))
    · intro n
      rw [members, insert, List.map_cons, List.mem_cons]
      simp only [eq_comm, or_assoc, or_left_comm]

private theorem valid_of_checkEnum {e : EnumDef} (h : checkEnum e = .ok ()) : e.Valid := by
  unfold checkEnum at h
  simp only [refuse_eq_ok_iff, bind_eq_ok_iff] at h
  obtain ⟨integer, seen, names, _⟩ := h
  have step (seen : Names) (v : Enumerator) (seen' : Names)
      (h : checkEnumerator e seen v = .ok seen') :
      (e.underlying.ofLong? v.value).isSome ∧ v.name ∉ seen ∧ seen' = seen.insert v.name := by
    unfold checkEnumerator at h
    simp only [bind_eq_ok_iff, addName_eq_ok_iff, refuse_eq_ok_iff] at h
    obtain ⟨_, ⟨new, rfl⟩, fits, result⟩ := h
    cases result
    exact ⟨by simpa [Option.isSome_iff_ne_none] using fits, new, rfl⟩
  obtain ⟨fits, distinct, _⟩ := names_of_foldlM names step
  exact ⟨by simpa using integer, distinct, fits⟩

private theorem valid_of_checkStruct {d : StructDef} (h : checkStruct d = .ok ()) : d.Valid := by
  unfold checkStruct at h
  simp only [refuse_eq_ok_iff, bind_eq_ok_iff] at h
  obtain ⟨nonempty, seen, names, _⟩ := h
  obtain ⟨_, distinct, _⟩ := names_of_foldlM (P := fun _ => True) names
    fun seen m seen' step => ⟨trivial, addName_eq_ok_iff.mp step⟩
  exact ⟨by simpa using nonempty, distinct⟩

private theorem resolves_of_checkReference {s : Schema} {type : FieldType}
    (h : s.checkReference type = .ok ()) : s.Resolves type := by
  intro kind id reference
  simp only [checkReference, reference] at h
  split at h
  · assumption
  · cases h

private theorem declared_of_checkDefault {s : Schema} {table : String} {f : FieldDef}
    (h : s.checkDefault table f = .ok ()) {v : Value} (declared : f.declared = some v) :
    s.scalarType? f.type = some v.type := by
  simp only [checkDefault, declared] at h
  split at h
  · assumption
  · cases h

private theorem valid_of_checkTable {s : Schema} {t : TableDef} (h : s.checkTable t = .ok ()) :
    t.Valid s := by
  unfold checkTable at h
  simp only [refuse_eq_ok_iff, bind_eq_ok_iff] at h
  obtain ⟨few, seen, names, _⟩ := h
  have step (seen : Names) (f : FieldDef) (seen' : Names)
      (h : s.checkField t.name seen f = .ok seen') :
      (s.Resolves f.type ∧ ∀ v, f.declared = some v → s.scalarType? f.type = some v.type) ∧
        f.name ∉ seen ∧ seen' = seen.insert f.name := by
    unfold checkField at h
    simp only [bind_eq_ok_iff, exists_unit_iff, addName_eq_ok_iff] at h
    obtain ⟨_, ⟨new, rfl⟩, reference, default, result⟩ := h
    cases result
    exact ⟨⟨resolves_of_checkReference reference, fun v => declared_of_checkDefault default⟩,
      new, rfl⟩
  obtain ⟨fields, distinct, _⟩ := names_of_foldlM names step
  exact ⟨by omega, distinct, fun f hf => (fields f hf).1, fun f hf => (fields f hf).2⟩

/-- A schema that passes validation keeps the conditions. -/
theorem valid_of_validate {s : Schema} (h : s.validate = .ok ()) : s.Valid := by
  unfold validate at h
  simp only [bind_eq_ok_iff] at h
  obtain ⟨enumNames, enums, structNames, structs, tableNames, tables, root⟩ := h
  obtain ⟨validEnums, distinctEnums, _, inEnums⟩ := names_of_foldlM (P := EnumDef.Valid)
    (f := EnumDef.name) enums fun seen e seen' step =>
      (declare_eq_ok_iff.mp step).imp_left valid_of_checkEnum
  obtain ⟨validStructs, distinctStructs, newStructs, inStructs⟩ :=
    names_of_foldlM (P := StructDef.Valid) (f := StructDef.name) structs fun seen d seen' step =>
      (declare_eq_ok_iff.mp step).imp_left valid_of_checkStruct
  obtain ⟨validTables, distinctTables, newTables, _⟩ := names_of_foldlM
    (P := TableDef.Valid s) (f := TableDef.name) tables fun seen t seen' step =>
      (declare_eq_ok_iff.mp step).imp_left valid_of_checkTable
  refine ⟨validEnums, validStructs, validTables, ?_, ?_⟩
  · refine List.nodup_append.mpr ⟨List.nodup_append.mpr ⟨distinctEnums, distinctStructs, ?_⟩,
      distinctTables, ?_⟩
    · rintro n inEnum m inStruct rfl
      obtain ⟨d, hd, rfl⟩ := List.mem_map.mp inStruct
      exact newStructs d hd ((inEnums _).mpr (.inr inEnum))
    · rintro n earlier m inTable rfl
      obtain ⟨t, ht, rfl⟩ := List.mem_map.mp inTable
      refine newTables t ht ((inStructs _).mpr ?_)
      rcases List.mem_append.mp earlier with inEnum | inStruct
      · exact .inl ((inEnums _).mpr (.inr inEnum))
      · exact .inr inStruct
  · intro id rooted
    simp only [checkRoot, rooted] at root
    split at root
    · assumption
    · cases root

/-! ### Valid schemas pass -/

/-- Declarations with different names can be added one after the other. -/
private theorem foldlM_of_names {α : Type} {add : Names → α → Except SchemaError Names}
    {f : α → String} {l : List α} {seen : Names}
    (step : ∀ seen, ∀ x ∈ l, f x ∉ seen → add seen x = .ok (seen.insert (f x)))
    (distinct : (l.map f).Nodup) (unseen : ∀ x ∈ l, f x ∉ seen) :
    ∃ seen', l.foldlM add seen = .ok seen' ∧ ∀ n, n ∈ seen' ↔ n ∈ seen ∨ n ∈ l.map f := by
  induction l generalizing seen with
  | nil => exact ⟨seen, rfl, by simp⟩
  | cons x l ih =>
    obtain ⟨new, distinct⟩ := List.nodup_cons.mp distinct
    have insert (n : String) : n ∈ seen.insert (f x) ↔ f x = n ∨ n ∈ seen := by
      rw [Std.TreeSet.mem_insert, Std.LawfulEqCmp.compare_eq_iff_eq]
    have first := step seen x List.mem_cons_self (unseen x List.mem_cons_self)
    have later (y : α) (member : y ∈ l) : f y ∉ seen.insert (f x) := by
      intro again
      rcases (insert _).mp again with same | seenY
      · exact new (same ▸ List.mem_map_of_mem member)
      · exact unseen y (List.mem_cons_of_mem _ member) seenY
    obtain ⟨seen', rest, members⟩ :=
      ih (fun seen y member => step seen y (List.mem_cons_of_mem _ member)) distinct later
    refine ⟨seen', ?_, fun n => ?_⟩
    · rw [List.foldlM_cons, first, ok_bind, rest]
    · rw [members, insert, List.map_cons, List.mem_cons]
      simp only [eq_comm, or_assoc, or_left_comm]

private theorem addName_of_new {kind : NameKind} {shown name : String} {seen : Names}
    (new : name ∉ seen) : addName kind shown name seen = .ok (seen.insert name) :=
  addName_eq_ok_iff.mpr ⟨new, rfl⟩

private theorem not_mem_empty (n : String) : n ∉ (Std.TreeSet.empty : Names) :=
  Std.TreeSet.not_mem_emptyc

private theorem checkEnum_of_valid {e : EnumDef} (valid : e.Valid) : checkEnum e = .ok () := by
  have step (seen : Names) (v : Enumerator) (member : v ∈ e.values) (new : v.name ∉ seen) :
      checkEnumerator e seen v = .ok (seen.insert v.name) := by
    unfold checkEnumerator
    rw [addName_of_new new, ok_bind]
    exact refuse_eq_ok_iff.mpr ⟨by simpa [← Option.isSome_iff_ne_none] using valid.fits v member, rfl⟩
  obtain ⟨seen, names, _⟩ := foldlM_of_names step valid.distinct fun v _ => not_mem_empty v.name
  unfold checkEnum
  exact refuse_eq_ok_iff.mpr ⟨by simp [valid.integer], bind_eq_ok_iff.mpr ⟨seen, names, rfl⟩⟩

private theorem checkStruct_of_valid {d : StructDef} (valid : d.Valid) : checkStruct d = .ok () := by
  have step (seen : Names) (m : Member) (_ : m ∈ d.members) (new : m.name ∉ seen) :
      addName .member (d.name ++ "." ++ m.name) m.name seen = .ok (seen.insert m.name) :=
    addName_of_new new
  obtain ⟨seen, names, _⟩ := foldlM_of_names step valid.distinct fun m _ => not_mem_empty m.name
  unfold checkStruct
  exact refuse_eq_ok_iff.mpr ⟨by simp [valid.nonempty], bind_eq_ok_iff.mpr ⟨seen, names, rfl⟩⟩

private theorem checkTable_of_valid {s : Schema} {t : TableDef} (valid : t.Valid s) :
    s.checkTable t = .ok () := by
  have step (seen : Names) (f : FieldDef) (member : f ∈ t.fields.toList) (new : f.name ∉ seen) :
      s.checkField t.name seen f = .ok (seen.insert f.name) := by
    have reference : s.checkReference f.type = .ok () := by
      have resolves := valid.resolves f member
      unfold checkReference
      split
      · rename_i kind id refers
        rw [if_pos (resolves kind id refers)]
      · rfl
    have default : s.checkDefault t.name f = .ok () := by
      have declared := valid.declared f member
      unfold checkDefault
      split
      · rename_i v isDeclared
        rw [if_pos (declared v isDeclared)]
      · rfl
    unfold checkField
    rw [addName_of_new new, ok_bind, reference, default]
    rfl
  obtain ⟨seen, names, _⟩ := foldlM_of_names step valid.distinct fun f _ => not_mem_empty f.name
  unfold checkTable
  exact refuse_eq_ok_iff.mpr
    ⟨by simpa using valid.few, bind_eq_ok_iff.mpr ⟨seen, names, rfl⟩⟩

/-- Declarations whose parts are in order and whose names are new can be added one after the other. -/
private theorem foldlM_declare {α : Type} (kind : NameKind) (f : α → String)
    (check : α → Except SchemaError Unit) {l : List α} {seen : Names}
    (ok : ∀ x ∈ l, check x = .ok ()) (distinct : (l.map f).Nodup) (unseen : ∀ x ∈ l, f x ∉ seen) :
    ∃ seen', l.foldlM (fun seen x => do
      let seen ← addName kind (f x) (f x) seen
      check x
      return seen) seen = .ok seen' ∧ ∀ n, n ∈ seen' ↔ n ∈ seen ∨ n ∈ l.map f :=
  foldlM_of_names (fun _ x member new => declare_eq_ok_iff.mpr ⟨ok x member, new, rfl⟩) distinct unseen

/-- The conditions are all that validation asks for. -/
theorem validate_of_valid {s : Schema} (valid : s.Valid) : s.validate = .ok () := by
  obtain ⟨distinct, distinctTables, apartTables⟩ := List.nodup_append.mp valid.distinct
  obtain ⟨distinctEnums, distinctStructs, apart⟩ := List.nodup_append.mp distinct
  obtain ⟨enumNames, enums, inEnums⟩ := foldlM_declare .enum EnumDef.name checkEnum
    (fun e member => checkEnum_of_valid (valid.enums e member)) distinctEnums
    fun e _ => not_mem_empty e.name
  have newStructs (d : StructDef) (member : d ∈ s.structs.toList) : d.name ∉ enumNames := by
    intro seen
    rcases (inEnums _).mp seen with inEmpty | inEnum
    · exact not_mem_empty _ inEmpty
    · exact apart _ inEnum _ (List.mem_map_of_mem member) rfl
  obtain ⟨structNames, structs, inStructs⟩ := foldlM_declare .struct StructDef.name checkStruct
    (fun d member => checkStruct_of_valid (valid.structs d member)) distinctStructs newStructs
  have newTables (t : TableDef) (member : t ∈ s.tables.toList) : t.name ∉ structNames := by
    intro seen
    have inTable : t.name ∈ s.tables.toList.map TableDef.name := List.mem_map_of_mem member
    rcases (inStructs _).mp seen with earlier | inStruct
    · rcases (inEnums _).mp earlier with inEmpty | inEnum
      · exact not_mem_empty _ inEmpty
      · exact apartTables _ (List.mem_append_left _ inEnum) _ inTable rfl
    · exact apartTables _ (List.mem_append_right _ inStruct) _ inTable rfl
  obtain ⟨tableNames, tables, _⟩ := foldlM_declare .table TableDef.name s.checkTable
    (fun t member => checkTable_of_valid (valid.tables t member)) distinctTables newTables
  have root : s.checkRoot = .ok () := by
    have inside := valid.root
    unfold checkRoot
    split
    · rename_i id isRoot
      rw [if_pos (inside id isRoot)]
    · rfl
  unfold validate
  simp only [bind_eq_ok_iff]
  exact ⟨enumNames, enums, structNames, structs, tableNames, tables, root⟩

/-- The fields of a table, with their numbers. -/
theorem mem_zipIdx_fields {s : Schema} {id i : Nat} {d : TableDef} {f : FieldDef}
    (found : s.tables[id]? = some d) :
    (f, i) ∈ d.fields.toList.zipIdx ↔ s.field? id i = some f := by
  rw [List.mem_zipIdx_iff_getElem?, Array.getElem?_toList, field?, found, Option.bind_some]

/-- Only scalars and enums have defaults. -/
theorem fieldDefault?_of_compound {s : Schema} {id i : Nat} {f : FieldDef}
    (h : s.field? id i = some f) (fixed : f.type.isFixedWidth = false) :
    s.fieldDefault? id i = none := by
  have scalar : s.scalarType? f.type = none := by
    cases type : f.type <;> simp_all [FieldType.isFixedWidth, scalarType?]
  simp only [fieldDefault?, h, scalar, Option.bind_eq_bind, Option.bind_some, Option.bind_none]

theorem Valid.rootTable? {s : Schema} (valid : s.Valid) {r : Nat} (explicit : s.root = some r) :
    s.rootTable? = some r := by
  simp only [Schema.rootTable?, explicit, if_pos (valid.root r explicit)]

/-! ### What every field of a valid schema has -/

section
variable {s : Schema} (valid : s.Valid) {id i : Nat} {f : FieldDef}
include valid

theorem Valid.table {t : TableDef} (h : s.tables[id]? = some t) : t.Valid s :=
  valid.tables t (Array.mem_toList_iff.mpr (Array.mem_of_getElem? h))

theorem Valid.field (h : s.field? id i = some f) :
    s.Resolves f.type ∧ ∀ v, f.declared = some v → s.scalarType? f.type = some v.type := by
  obtain ⟨t, isTable, isField⟩ := Option.bind_eq_some_iff.mp h
  have member : f ∈ t.fields.toList := Array.mem_toList_iff.mpr (Array.mem_of_getElem? isField)
  exact ⟨(valid.table isTable).resolves f member, (valid.table isTable).declared f member⟩

/-- The name of a field tells its number. -/
theorem Valid.number_unique {j : Nat} {g : FieldDef} (hf : s.field? id i = some f)
    (hg : s.field? id j = some g) (same : f.name = g.name) : i = j := by
  obtain ⟨d, isTable, isField⟩ := Option.bind_eq_some_iff.mp hf
  rw [field?, isTable, Option.bind_some] at hg
  have name {k : Nat} {f : FieldDef} (isField : d.fields[k]? = some f) :
      (d.fields.toList.map FieldDef.name)[k]? = some f.name := by
    rw [List.getElem?_map, Array.getElem?_toList, isField, Option.map_some]
  have inside := (List.getElem?_eq_some_iff.mp (name isField)).1
  refine (List.getElem?_inj inside (valid.table isTable).distinct).mp ?_
  rw [name isField, name hg, same]

omit valid in
theorem Resolves.underlying {enum : Nat} (h : s.Resolves (.enum enum)) :
    ∃ type, s.underlying? enum = some type := by
  have inRange : enum < s.enums.size := h .enum enum rfl
  exact ⟨_, by rw [underlying?, Array.getElem?_eq_getElem inRange, Option.map_some]⟩

/-- A scalar or enum field has a scalar type. -/
theorem Valid.scalarType (h : s.field? id i = some f) (fixed : f.type.isFixedWidth) :
    ∃ type, s.scalarType? f.type = some type := by
  have resolves := (valid.field h).1
  cases type : f.type with
  | scalar t => exact ⟨t, rfl⟩
  | enum id => exact (type ▸ resolves : s.Resolves (.enum id)).underlying
  | string | vector e | table id | struct id => simp [type, FieldType.isFixedWidth] at fixed

theorem Valid.struct {struct : Nat} (h : s.field? id i = some f) (type : f.type = .struct struct) :
    ∃ d, s.structs[struct]? = some d ∧ d.Valid := by
  have inRange : struct < s.structs.size := (valid.field h).1 .struct struct (by rw [type]; rfl)
  have found := Array.getElem?_eq_getElem inRange
  exact ⟨_, found, valid.structs _ (Array.mem_toList_iff.mpr (Array.mem_of_getElem? found))⟩

/-- The default of a field is of the type that the field stores. -/
theorem Valid.fieldDefault {type : ScalarType} (h : s.field? id i = some f)
    (scalar : s.scalarType? f.type = some type) :
    ∃ v, s.fieldDefault? id i = some v ∧ v.type = type := by
  refine ⟨f.declared.getD type.zero, ?_, ?_⟩
  · simp only [fieldDefault?, h, scalar, Option.bind_eq_bind, Option.bind_some, Option.pure_def]
  · cases declared : f.declared with
    | none => rfl
    | some v =>
      have same := (valid.field h).2 v declared
      rw [scalar] at same
      exact (Option.some.inj same).symm

end

end Schema
end FlatTable

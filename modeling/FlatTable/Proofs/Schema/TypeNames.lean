import FlatTable.Proofs.Convert.Normal
import FlatTable.Proofs.Renaming.Order
import FlatTable.Proofs.Text.Trimmed

/-! The names of types: which of them tell the type, and which texts a declared name takes from the types
that are there without a declaration. -/
namespace FlatTable
open Text

theorem Text.trimString_trimString (text : String) : trimString (trimString text) = trimString text := by
  rw [trimString, trimString, String.toList_ofList, (trimmed_trim text.toList).trim_eq]

/-! ### Names of scalar types -/

namespace ScalarType

theorem name_injective {t u : ScalarType} (same : t.name = u.name) : t = u := by
  cases t <;> cases u <;> first | rfl | simp [name] at same

theorem ofName?_name (t : ScalarType) : ofName? t.name = some t := by
  cases t <;> decide +kernel

theorem ofName?_trimString (text : String) : ofName? (trimString text) = ofName? text := by
  rw [ofName?, trimString_trimString, ofName?]

theorem eq_name_of_ofName? {text : String} {t : ScalarType} (known : ofName? text = some t) :
    lowerAscii (trimString text) = t.name ∨ lowerAscii (trimString text) = t.sizedName := by
  have named := List.find?_some known
  simp only [Bool.or_eq_true, beq_iff_eq] at named
  exact named.imp Eq.symm Eq.symm

end ScalarType

theorem ElementType.asField_injective {e e' : ElementType} (same : e.asField = e'.asField) : e = e' := by
  cases e <;> cases e' <;> first | cases same; rfl | cases same

namespace FieldType

def base : FieldType → FieldType
  | vector e => e.asField
  | type => type

def isBuiltIn : FieldType → Bool
  | scalar _ | string | vector _ => true
  | enum _ | table _ | struct _ => false

end FieldType

@[simp] theorem ElementType.base_asField (e : ElementType) : e.asField.base = e.asField := by
  cases e <;> rfl

namespace Schema
variable {s : Schema} {type : FieldType} {name : String}

/-! ### Declared names -/

def declaredTypes (s : Schema) : List FieldType :=
  (List.range s.enums.size).map .enum ++ (List.range s.structs.size).map .struct ++
    (List.range s.tables.size).map .table

@[simp] theorem enum_mem_declaredTypes {id : Nat} : .enum id ∈ s.declaredTypes ↔ id < s.enums.size := by
  simp [declaredTypes]

@[simp] theorem struct_mem_declaredTypes {id : Nat} :
    .struct id ∈ s.declaredTypes ↔ id < s.structs.size := by
  simp [declaredTypes]

@[simp] theorem table_mem_declaredTypes {id : Nat} :
    .table id ∈ s.declaredTypes ↔ id < s.tables.size := by
  simp [declaredTypes]

@[simp] theorem scalar_not_mem_declaredTypes {t : ScalarType} : .scalar t ∉ s.declaredTypes := by
  simp [declaredTypes]

@[simp] theorem string_not_mem_declaredTypes : .string ∉ s.declaredTypes := by
  simp [declaredTypes]

@[simp] theorem vector_not_mem_declaredTypes {e : ElementType} : .vector e ∉ s.declaredTypes := by
  simp [declaredTypes]

private theorem map_range_eq_map {α : Type} (l : Array α) (name : α → String) (unknown : Nat → String) :
    (List.range l.size).map (fun id => (l[id]?.map name).getD (unknown id)) = l.toList.map name := by
  refine List.ext_getElem (by simp) fun i inside _ => ?_
  simp only [List.length_map, List.length_range] at inside
  simp [inside]

theorem declaredNames_eq_map : s.declaredNames = s.declaredTypes.map s.typeName := by
  simp only [declaredNames, declaredTypes, List.map_append, List.map_map]
  exact congrArg₂ _ (congrArg₂ _ (map_range_eq_map s.enums _ _).symm
    (map_range_eq_map s.structs _ _).symm) (map_range_eq_map s.tables _ _).symm

theorem mem_declaredNames_iff : name ∈ s.declaredNames ↔ ∃ type ∈ s.declaredTypes, s.typeName type = name := by
  rw [declaredNames_eq_map, List.mem_map]

theorem resolves_of_mem_declaredTypes (member : type ∈ s.declaredTypes) : s.Resolves type := by
  cases type with
  | enum id =>
    rintro _ _ ⟨⟩
    exact enum_mem_declaredTypes.mp member
  | struct id =>
    rintro _ _ ⟨⟩
    exact struct_mem_declaredTypes.mp member
  | table id =>
    rintro _ _ ⟨⟩
    exact table_mem_declaredTypes.mp member
  | scalar _ | string | vector _ => simp at member

/-- A declared type has its name for itself. -/
theorem eq_of_typeName_eq (valid : s.Valid) {other : FieldType} (declared : type ∈ s.declaredTypes)
    (declared' : other ∈ s.declaredTypes) (same : s.typeName type = s.typeName other) : type = other :=
  List.inj_on_of_nodup_map ((declaredNames_eq_map (s := s)) ▸ valid.distinct) declared declared' same

/-! ### What a name stands for -/

private theorem name_of_findIdx? {α : Type} {l : Array α} {nameOf : α → String} {id : Nat}
    (found : l.findIdx? (fun a => nameOf a == name) = some id) (unknown : String) :
    id < l.size ∧ (l[id]?.map nameOf).getD unknown = name := by
  obtain ⟨inside, named, _⟩ := Array.findIdx?_eq_some_iff_getElem.mp found
  exact ⟨inside, by simpa [inside] using named⟩

private theorem not_mem_of_findIdx? {α : Type} {l : Array α} {nameOf : α → String}
    (missing : l.findIdx? (fun a => nameOf a == name) = none) : name ∉ l.toList.map nameOf := by
  intro member
  obtain ⟨a, among, same⟩ := List.mem_map.mp member
  have other := Array.findIdx?_eq_none_iff.mp missing a (Array.mem_toList_iff.mp among)
  simp [same] at other

/-- A name stands for a type that is declared with it, or for the scalar type with this name. -/
theorem namedType?_cases (s : Schema) (other : name ≠ "string") :
    (∃ type ∈ s.declaredTypes, s.typeName type = name ∧ s.namedType? name = some type) ∨
      (name ∉ s.declaredNames ∧ s.namedType? name = (ScalarType.ofName? name).map .scalar) := by
  unfold namedType?
  rw [if_neg other]
  cases enum : s.enumId? name with
  | some id =>
    obtain ⟨inside, named⟩ := name_of_findIdx? enum ("enum#" ++ toString id)
    exact .inl ⟨.enum id, by simpa using inside, named, rfl⟩
  | none =>
    cases struct : s.structId? name with
    | some id =>
      obtain ⟨inside, named⟩ := name_of_findIdx? struct ("struct#" ++ toString id)
      exact .inl ⟨.struct id, by simpa using inside, named, rfl⟩
    | none =>
      cases table : s.tableId? name with
      | some id =>
        obtain ⟨inside, named⟩ := name_of_findIdx? table ("table#" ++ toString id)
        exact .inl ⟨.table id, by simpa using inside, named, rfl⟩
      | none =>
        refine .inr ⟨?_, rfl⟩
        rw [declaredNames, List.mem_append, List.mem_append, not_or, not_or]
        exact ⟨⟨not_mem_of_findIdx? enum, not_mem_of_findIdx? struct⟩, not_mem_of_findIdx? table⟩

/-- A declared type is named by its name and by nothing else. -/
theorem namedType?_eq_some_iff (valid : s.Valid) (declared : type ∈ s.declaredTypes) :
    s.namedType? name = some type ↔ name ≠ "string" ∧ s.typeName type = name := by
  by_cases string : name = "string"
  · refine iff_of_false ?_ fun given => given.1 string
    rw [namedType?, if_pos string]
    rintro ⟨⟩
    simp at declared
  · rcases s.namedType?_cases string with ⟨found, declared', named, result⟩ | ⟨free, result⟩
    · rw [result, Option.some_inj]
      constructor
      · rintro rfl
        exact ⟨string, named⟩
      · rintro ⟨_, rfl⟩
        exact eq_of_typeName_eq valid declared' declared named
    · refine iff_of_false ?_ fun given => free (mem_declaredNames_iff.mpr ⟨type, declared, given.2⟩)
      rw [result]
      intro scalar
      obtain ⟨t, -, rfl⟩ := Option.map_eq_some_iff.mp scalar
      simp at declared

/-- A scalar type has its names unless they are declared. -/
theorem namedType?_eq_scalar_iff {t : ScalarType} (known : ScalarType.ofName? name = some t)
    (other : name ≠ "string") : s.namedType? name = some (.scalar t) ↔ name ∉ s.declaredNames := by
  rcases s.namedType?_cases other with ⟨found, declared, named, result⟩ | ⟨free, result⟩
  · refine iff_of_false ?_ (not_not_intro (mem_declaredNames_iff.mpr ⟨found, declared, named⟩))
    rw [result]
    rintro ⟨⟩
    simp at declared
  · rw [result, known]
    exact iff_of_true rfl free

/-! ### Texts of types -/

/-- A text that is not in brackets is taken as a name, without the blanks around it. -/
theorem resolveType?_of_unbracketed {text : String} (none : bracketed? (trim text.toList) = none) :
    s.resolveType? text = s.namedType? (trimString text) := by
  rw [resolveType?, none]
  rfl

theorem resolveType?_trimString (text : String) : s.resolveType? (trimString text) = s.resolveType? text := by
  rw [resolveType?, trimString, String.toList_ofList, (trimmed_trim text.toList).trim_eq,
    resolveType?]

theorem bracketed?_brackets (cs : List Char) : bracketed? ('[' :: (cs ++ [']'])) = some cs := by
  simp [bracketed?]

theorem elementType?_eq_some_iff {e : ElementType} : elementType? type = some e ↔ type = e.asField := by
  cases type <;> cases e <;> simp [elementType?, ElementType.asField]

/-- A text in brackets is that of a vector, if its elements can be in one. -/
theorem resolveType?_brackets (text : String) :
    s.resolveType? ("[" ++ text ++ "]") = ((s.resolveType? text).bind elementType?).map .vector := by
  have whole : trim ("[" ++ text ++ "]").toList = '[' :: (text.toList ++ [']']) := by
    have ends : Trimmed ('[' :: (text.toList ++ [']'])) := trimmed_of_ends rfl rfl
    simpa using ends.trim_eq
  rw [resolveType?, whole, bracketed?_brackets]
  cases inner : bracketed? (trim text.toList) with
  | none =>
    rw [resolveType?_of_unbracketed inner]
    simp [inner, trimString]
  | some cs =>
    -- neither no type nor a vector can be in a vector
    have nested : (s.resolveType? text).bind elementType? = none := by
      simp only [resolveType?, inner]
      split
      · rfl
      · cases (s.namedType? (String.ofList (trim cs))).bind elementType? <;> rfl
    simp [inner, nested]

/-! ### What the names of types stand for -/

/-- A name that can be told from the text of a vector, from that of a string and from blanks around it. -/
structure IsPlainName (name : String) : Prop where
  trimmed : Trimmed name.toList
  unbracketed : bracketed? name.toList = none
  other : name ≠ "string"

theorem resolveType?_declared_iff (valid : s.Valid) (declared : type ∈ s.declaredTypes) :
    s.resolveType? (s.typeName type) = some type ↔ IsPlainName (s.typeName type) := by
  constructor
  · intro resolved
    cases inner : bracketed? (trim (s.typeName type).toList) with
    | none =>
      rw [resolveType?_of_unbracketed inner] at resolved
      obtain ⟨other, same⟩ := (namedType?_eq_some_iff valid declared).mp resolved
      have trimmed : Trimmed (s.typeName type).toList := by
        rw [Trimmed, ← String.toList_ofList (l := trim _)]
        exact congrArg String.toList same.symm
      exact ⟨trimmed, by rwa [trimmed.trim_eq] at inner, by rwa [← same] at other⟩
    | some cs =>
      simp only [resolveType?, inner] at resolved
      split at resolved
      · cases resolved
      · obtain ⟨e, -, rfl⟩ := Option.map_eq_some_iff.mp resolved
        simp at declared
  · rintro ⟨trimmed, unbracketed, other⟩
    have same : trimString (s.typeName type) = s.typeName type := by
      rw [trimString, trimmed.trim_eq, String.ofList_toList]
    rw [resolveType?_of_unbracketed (trimmed.trim_eq.symm ▸ unbracketed), same,
      namedType?_eq_some_iff valid declared]
    exact ⟨other, rfl⟩

private theorem ne_of_ofName? {text : String} {t : ScalarType} (known : ScalarType.ofName? text = some t) :
    bracketed? (trim text.toList) = none ∧ trimString text ≠ "string" := by
  have word := ScalarType.eq_name_of_ofName? known
  constructor
  · cases cs : trim text.toList with
    | nil => rfl
    | cons c rest =>
      have first : c ≠ '[' := by
        rintro rfl
        rw [lowerAscii, trimString, String.toList_ofList, cs] at word
        cases t <;> simp [ScalarType.name, ScalarType.sizedName, ← String.toList_inj] at word
      simp [bracketed?, first]
  · intro string
    rw [string] at word
    cases t <;> revert word <;> decide

/-- The texts of a scalar type, whatever their case, stand for it unless they are declared. -/
theorem resolveType?_scalar_iff {text : String} {t : ScalarType} (known : ScalarType.ofName? text = some t) :
    s.resolveType? text = some (.scalar t) ↔ trimString text ∉ s.declaredNames := by
  obtain ⟨unbracketed, other⟩ := ne_of_ofName? known
  rw [resolveType?_of_unbracketed unbracketed,
    namedType?_eq_scalar_iff ((ScalarType.ofName?_trimString text).trans known) other]

theorem resolveType?_string {text : String} (string : trimString text = "string") :
    s.resolveType? text = some .string := by
  rw [← resolveType?_trimString, string]
  rfl

/-! ### Types that are in range -/

theorem Resolves.element {e : ElementType} (resolves : s.Resolves (.vector e)) : s.Resolves e.asField := by
  cases e <;> exact resolves

theorem Resolves.isBuiltIn_or_declared (resolves : s.Resolves type) :
    type.isBuiltIn ∨ type ∈ s.declaredTypes := by
  cases type with
  | scalar _ | string | vector _ => exact .inl rfl
  | enum id => exact .inr (enum_mem_declaredTypes.mpr (resolves .enum id rfl))
  | table id => exact .inr (table_mem_declaredTypes.mpr (resolves .table id rfl))
  | struct id => exact .inr (struct_mem_declaredTypes.mpr (resolves .struct id rfl))

theorem typeName_vector (e : ElementType) : s.typeName (.vector e) = "[" ++ s.typeName e.asField ++ "]" := by
  cases e <;> rfl

/-- The name of a type, or that of what a vector holds, stands for nothing else. -/
def Recovers (s : Schema) (type : FieldType) : Prop :=
  match type.base with
  | .string => True
  | .scalar t => t.name ∉ s.declaredNames
  | declared => IsPlainName (s.typeName declared)

private theorem resolveType?_base_iff (valid : s.Valid) (resolves : s.Resolves type)
    (flat : type.base = type) : s.resolveType? (s.typeName type) = some type ↔ s.Recovers type := by
  rw [Recovers, flat]
  rcases resolves.isBuiltIn_or_declared with builtIn | declared
  · cases type with
    | scalar t =>
      have plain : trimString t.name = t.name := by cases t <;> decide
      have iff := resolveType?_scalar_iff (s := s) t.ofName?_name
      rwa [plain] at iff
    | string => exact iff_of_true (resolveType?_string (by decide : trimString "string" = "string")) trivial
    | vector e => cases e <;> cases flat
    | enum _ | table _ | struct _ => cases builtIn
  · have iff := resolveType?_declared_iff valid declared
    cases type with
    | enum _ | table _ | struct _ => exact iff
    | scalar _ | string | vector _ => simp at declared

/-- A type is read back from its name exactly if this stands for nothing else. -/
theorem resolveType?_typeName_iff (valid : s.Valid) (resolves : s.Resolves type) :
    s.resolveType? (s.typeName type) = some type ↔ s.Recovers type := by
  cases type with
  | vector e =>
    have element := resolveType?_base_iff valid resolves.element e.base_asField
    rw [Recovers, e.base_asField] at element
    rw [typeName_vector, resolveType?_brackets, Recovers, FieldType.base, ← element]
    simp [Option.bind_eq_some_iff, elementType?_eq_some_iff]
  | scalar _ | enum _ | string | table _ | struct _ => exact resolveType?_base_iff valid resolves rfl

/-! ### Different types with one name -/

private theorem exists_vector (inner : type.base ≠ type) : ∃ e, type = .vector e := by
  cases type with
  | vector e => exact ⟨e, rfl⟩
  | scalar _ | enum _ | string | table _ | struct _ => exact absurd rfl inner

private theorem scalar_or_string (builtIn : type.isBuiltIn) (flat : type.base = type) :
    (∃ t, type = .scalar t) ∨ type = .string := by
  cases type with
  | scalar t => exact .inl ⟨t, rfl⟩
  | string => exact .inr rfl
  | vector e => cases e <;> cases flat
  | enum _ | table _ | struct _ => cases builtIn

private theorem typeName_ne_brackets (builtIn : type.isBuiltIn) (flat : type.base = type) (text : String) :
    s.typeName type ≠ "[" ++ text ++ "]" := by
  obtain ⟨t, rfl⟩ | rfl := scalar_or_string builtIn flat
  · cases t <;> simp [typeName, ScalarType.name, ← String.toList_inj]
  · simp [typeName, ← String.toList_inj]

section
variable {a b : FieldType} (valid : s.Valid)
  (free : ∀ type, s.Resolves type → type.isBuiltIn → s.typeName type ∉ s.declaredNames)
  (ha : s.Resolves a) (hb : s.Resolves b) (same : s.typeName a = s.typeName b)
include valid free ha hb same

/-- Either both types are declared or neither is, and then neither is a declared type. -/
private theorem eq_or_isBuiltIn : a = b ∨ (a.isBuiltIn ∧ b.isBuiltIn) := by
  rcases ha.isBuiltIn_or_declared with builtIn | declared <;>
    rcases hb.isBuiltIn_or_declared with builtIn' | declared'
  · exact .inr ⟨builtIn, builtIn'⟩
  · exact absurd (mem_declaredNames_iff.mpr ⟨b, declared', same.symm⟩) (free a ha builtIn)
  · exact absurd (mem_declaredNames_iff.mpr ⟨a, declared, same⟩) (free b hb builtIn')
  · exact .inl (eq_of_typeName_eq valid declared declared' same)

private theorem base_eq_of_typeName_eq (flat : a.base = a) (flat' : b.base = b) : a = b := by
  have unlike (t : ScalarType) : t.name ≠ "string" := by cases t <;> decide
  rcases eq_or_isBuiltIn valid free ha hb same with equal | ⟨builtIn, builtIn'⟩
  · exact equal
  · obtain ⟨t, rfl⟩ | rfl := scalar_or_string builtIn flat <;>
      obtain ⟨u, rfl⟩ | rfl := scalar_or_string builtIn' flat'
    · rw [ScalarType.name_injective same]
    · exact absurd same (unlike t)
    · exact absurd same.symm (unlike u)
    · rfl

/-- Names that no declaration takes from another type tell the type. -/
private theorem eq_of_free : a = b := by
  rcases eq_or_isBuiltIn valid free ha hb same with equal | ⟨builtIn, builtIn'⟩
  · exact equal
  -- only the name of a vector is in brackets
  by_cases flat : a.base = a <;> by_cases flat' : b.base = b
  · exact base_eq_of_typeName_eq valid free ha hb same flat flat'
  · obtain ⟨e, rfl⟩ := exists_vector flat'
    exact absurd same (typeName_ne_brackets builtIn flat _)
  · obtain ⟨e, rfl⟩ := exists_vector flat
    exact absurd same.symm (typeName_ne_brackets builtIn' flat' _)
  · obtain ⟨e, rfl⟩ := exists_vector flat
    obtain ⟨e', rfl⟩ := exists_vector flat'
    have inner : s.typeName e.asField = s.typeName e'.asField := by
      rw [typeName_vector, typeName_vector] at same
      simpa [← String.toList_inj] using same
    have equal := base_eq_of_typeName_eq valid free ha.element hb.element inner e.base_asField
      e'.base_asField
    rw [ElementType.asField_injective equal]

end

/-- The types in range have different names exactly if no declared name is that of a type that is there
without a declaration. -/
theorem typeName_injective_iff (valid : s.Valid) :
    (∀ a b, s.Resolves a → s.Resolves b → s.typeName a = s.typeName b → a = b) ↔
      ∀ type, s.Resolves type → type.isBuiltIn → s.typeName type ∉ s.declaredNames := by
  constructor
  · intro injective type resolves builtIn taken
    obtain ⟨other, declared, same⟩ := mem_declaredNames_iff.mp taken
    obtain rfl := injective other type (resolves_of_mem_declaredTypes declared) resolves same
    cases other with
    | scalar _ | string | vector _ => simp at declared
    | enum _ | table _ | struct _ => cases builtIn
  · intro free a b ha hb same
    exact eq_of_free valid free ha hb same

/-- In a schema that passes validation a type is read back from its name exactly if the name stands for
nothing else, and two types have the same name only if one is declared with the name of another that is there
without a declaration. A text of a scalar type stands for it unless it is declared itself, and that of a
string always does. A text in brackets is that of a vector of what is in it, or of no type. -/
theorem typeNames_of_validate (validated : s.validate = .ok ()) :
    (∀ type, s.Resolves type → (s.resolveType? (s.typeName type) = some type ↔ s.Recovers type)) ∧
    ((∀ a b, s.Resolves a → s.Resolves b → s.typeName a = s.typeName b → a = b) ↔
      ∀ type, s.Resolves type → type.isBuiltIn → s.typeName type ∉ s.declaredNames) ∧
    (∀ text t, ScalarType.ofName? text = some t →
      (s.resolveType? text = some (.scalar t) ↔ trimString text ∉ s.declaredNames)) ∧
    (∀ text, trimString text = "string" → s.resolveType? text = some .string) ∧
    ∀ text, s.resolveType? ("[" ++ text ++ "]") =
      ((s.resolveType? text).bind elementType?).map .vector := by
  have valid := valid_of_validate validated
  refine ⟨?_, typeName_injective_iff valid, ?_, ?_, ?_⟩
  · intro type resolves
    exact resolveType?_typeName_iff valid resolves
  · intro text t known
    exact resolveType?_scalar_iff known
  · intro text string
    exact resolveType?_string string
  · intro text
    exact resolveType?_brackets text

def maps : Schema :=
  ⟨"", [], #[⟨"Kind", .ubyte, [⟨"Town", 0⟩, ⟨"River", 1⟩]⟩], #[⟨"Spot", [⟨"x", .int⟩, ⟨"y", .int⟩]⟩],
    #[⟨"Map", #[.plain "kinds" (.vector (.enum 0)), .plain "center" (.struct 0)]⟩], none⟩

theorem maps_named : maps.validate = .ok () ∧
    maps.resolveType? (maps.typeName (.vector (.enum 0))) = some (.vector (.enum 0)) ∧
    maps.resolveType? (maps.typeName (.struct 0)) = some (.struct 0) ∧
    maps.resolveType? " INT32 " = some (.scalar .int) := by
  have validated : maps.validate = .ok () := rfl
  have names := typeNames_of_validate validated
  refine ⟨validated, (names.1 _ ?_).mpr ?_, (names.1 _ ?_).mpr ?_, (names.2.2.1 _ _ ?_).mpr ?_⟩
  · rintro _ _ ⟨⟩
    decide
  · exact ⟨rfl, rfl, by decide⟩
  · rintro _ _ ⟨⟩
    decide
  · exact ⟨rfl, rfl, by decide⟩
  · decide +kernel
  · decide +kernel

/-- Tables with the name of a scalar type and with a blank in front of a name. -/
def seized : Schema := ⟨"", [], #[], #[], #[⟨"int", #[]⟩, ⟨" Map", #[]⟩], none⟩

/-- Another type has the name of a table, which is what the name stands for, and another table is not
found by its name. -/
theorem seized_ambiguous : seized.validate = .ok () ∧
    seized.Resolves (.table 0) ∧ seized.Resolves (.scalar .int) ∧ seized.Resolves (.table 1) ∧
    seized.typeName (.scalar .int) = seized.typeName (.table 0) ∧
    seized.resolveType? (seized.typeName (.scalar .int)) = some (.table 0) ∧
    seized.resolveType? (seized.typeName (.table 1)) = none := by
  refine ⟨rfl, ?_, ?_, ?_, rfl, by decide +kernel, by decide +kernel⟩
  · rintro _ _ ⟨⟩
    decide
  · rintro _ _ ⟨⟩
  · rintro _ _ ⟨⟩
    decide

end Schema
end FlatTable

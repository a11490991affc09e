import FlatTable.Convert.Import
import FlatTable.Proofs.View.Rendered

/-! JSON as a schema normalises it: what a table's JSON is when the table has been stored and read
back. Nothing here knows of buffers. -/
namespace FlatTable

/-- Of two values that are equal as numbers the default counts. -/
def Value.settle (default : Option Value) (v : Value) : Value :=
  match default with
  | some d => if d.numEq v then d else v
  | none => v

def ElementType.asField : ElementType → FieldType
  | .scalar t => .scalar t
  | .enum id => .enum id
  | .string => .string
  | .table id => .table id

namespace Json

def isNull : Json → Bool
  | .null => true
  | _ => false

theorem eq_null {json : Json} (h : json.isNull) : json = .null := by
  cases json with
  | null => rfl
  | bool | integer | real | string | array | object => cases h

@[simp] theorem member?_nil (name : String) : member? name [] = none := rfl

theorem member?_cons_self (name : String) (json : Json) (members : List (String × Json)) :
    member? name ((name, json) :: members) = some json := by
  simp [member?]

theorem member?_cons_of_ne {name name' : String} (other : name ≠ name') (json : Json)
    (members : List (String × Json)) :
    member? name' ((name, json) :: members) = member? name' members := by
  rw [member?, List.find?_cons_of_neg (by simpa using other), member?]

theorem isSome_member? {name : String} {members : List (String × Json)} :
    (member? name members).isSome ↔ name ∈ members.map Prod.fst := by
  simp [member?]

/-- Among members with different names each is found. -/
theorem member?_eq_some_iff {name : String} {json : Json} {members : List (String × Json)}
    (distinct : (members.map Prod.fst).Nodup) :
    member? name members = some json ↔ (name, json) ∈ members := by
  induction members with
  | nil => simp
  | cons m rest ih =>
    obtain ⟨name', json'⟩ := m
    obtain ⟨new, distinct⟩ := List.nodup_cons.mp distinct
    by_cases same : name' = name
    · subst same
      have unlike : (name', json) ∉ rest := fun again =>
        new (List.mem_map.mpr ⟨_, again, rfl⟩)
      simp [member?_cons_self, unlike, eq_comm]
    · rw [member?_cons_of_ne same, ih distinct]
      simp [Ne.symm same]

end Json

def StructDef.json (d : StructDef) (s : Schema) (values : List Value) : Json :=
  Json.ofMembers ((d.members.zip values).map fun (m, v) => (m.name, s.scalarJson none v))

namespace Schema

def fieldNamed? (s : Schema) (id : Nat) (name : String) : Option (Nat × FieldDef) := do
  let d ← s.tables[id]?
  let i ← d.fieldId? name
  return (i, ← d.fields[i]?)

theorem field?_of_fieldNamed? {s : Schema} {id i : Nat} {name : String} {f : FieldDef}
    (named : s.fieldNamed? id name = some (i, f)) : s.field? id i = some f ∧ f.name = name := by
  simp only [fieldNamed?, Option.bind_eq_bind, Option.bind_eq_some_iff, Option.pure_def,
    Option.some.injEq, Prod.mk.injEq] at named
  obtain ⟨d, found, j, number, f, isField, rfl, rfl⟩ := named
  obtain ⟨g, isField', name⟩ := TableDef.exists_field number
  obtain rfl := Option.some.inj (isField.symm.trans isField')
  exact ⟨by rw [field?, found, Option.bind_some, isField], name⟩

def normalItem? (s : Schema) (type : FieldType) (default : Option Value) (json : Json) :
    Option Json :=
  match type, json with
  | .string, .string text => some (.string text)
  | type, json =>
    (s.scalarOfJson? type json).map fun v => s.scalarJson (enumOf? type) (v.settle default)

def normalStruct? (s : Schema) (d : StructDef) (members : List (String × Json)) : Option Json :=
  if members.all fun m => (d.memberId? m.1).isSome then
    (d.members.mapM fun m => (Json.member? m.name members).bind
      (s.scalarOfJson? (.scalar m.type))).map (d.json s)
  else none

/-- What a table to which these members are given has for one field: the given member, or else the
default. Of members with one name the first counts. -/
def normalMember? (s : Schema) (id : Nat) (given : List (String × Json))
    (field : FieldDef × Nat) : Option (String × Json) :=
  if field.1.deprecated then none
  else
    match Json.member? field.1.name given with
    | some json => some (field.1.name, json)
    | none => (s.fieldDefault? id field.2).map fun v =>
        (field.1.name, s.scalarJson (enumOf? field.1.type) v)

/-- A table to which these members are given. What is neither given nor has a default is left
out. -/
def normalTable (s : Schema) (id : Nat) (given : List (String × Json)) : Json :=
  match s.tables[id]? with
  | none => .object []
  | some d => Json.ofMembers (d.fields.toList.zipIdx.filterMap (s.normalMember? id given))

mutual

/-- JSON for a field of this type as it is read back. There is none for what such a field cannot
hold. -/
def normal? (s : Schema) (type : FieldType) (default : Option Value) : Json → Option Json
  | .object members =>
    match type with
    | .table id => (s.normalMembers? id members []).map (s.normalTable id)
    | .struct id => s.structs[id]?.bind fun d => s.normalStruct? d members
    | _ => none
  | .array items =>
    match type with
    | .vector e => (s.normalItems? e.asField items).map .array
    | _ => none
  | json => s.normalItem? type default json

/-- The members that are not `null`, the last first. Each must be for a field that may still be
used. -/
def normalMembers? (s : Schema) (id : Nat) :
    List (String × Json) → List (String × Json) → Option (List (String × Json))
  | [], given => some given
  | (name, json) :: rest, given =>
    match s.fieldNamed? id name with
    | none => none
    | some (i, f) =>
      if json.isNull then s.normalMembers? id rest given
      else if f.deprecated then none
      else
        match s.normal? f.type (s.fieldDefault? id i) json with
        | none => none
        | some value => s.normalMembers? id rest ((name, value) :: given)

def normalItems? (s : Schema) (type : FieldType) : List Json → Option (List Json)
  | [] => some []
  | json :: rest =>
    match s.normal? type none json, s.normalItems? type rest with
    | some value, some values => some (value :: values)
    | _, _ => none

end
/-! ### What the normal form of an object holds -/

section
variable {s : Schema} {id : Nat} {members given given' : List (String × Json)}

theorem normalMember?_eq_some_iff {field : FieldDef × Nat} {m : String × Json} :
    s.normalMember? id given field = some m ↔
      field.1.deprecated = false ∧ m.1 = field.1.name ∧
        (Json.member? field.1.name given = some m.2 ∨
          Json.member? field.1.name given = none ∧ ∃ v, s.fieldDefault? id field.2 = some v ∧
            m.2 = s.scalarJson (enumOf? field.1.type) v) := by
  obtain ⟨name, json⟩ := m
  unfold normalMember?
  cases field.1.deprecated with
  | true => simp
  | false =>
    cases Json.member? field.1.name given with
    | some json' => simp [eq_comm]
    | none => simp [eq_comm, and_left_comm]

/-- A table has one member for each field that is given or has a default, and no others. -/
theorem mem_normalTable (valid : s.Valid) {d : TableDef} (found : s.tables[id]? = some d) :
    ∃ members, s.normalTable id given = .object members ∧ (members.map Prod.fst).Nodup ∧
      ∀ m, m ∈ members ↔
        ∃ i f, s.field? id i = some f ∧ s.normalMember? id given (f, i) = some m := by
  have named (field : FieldDef × Nat) (m : String × Json)
      (member : s.normalMember? id given field = some m) : m.1 = field.1.name :=
    (normalMember?_eq_some_iff.mp member).2.1
  obtain ⟨members, object, perm, distinct⟩ := ofMembers_perm valid found named
  refine ⟨members, by rw [normalTable, found]; exact object, distinct, fun m => ?_⟩
  rw [perm.mem_iff, List.mem_filterMap]
  constructor
  · intro h
    obtain ⟨⟨f, i⟩, field, member⟩ := h
    exact ⟨i, f, (mem_zipIdx_fields found).mp field, member⟩
  · intro h
    obtain ⟨i, f, field, member⟩ := h
    exact ⟨(f, i), (mem_zipIdx_fields found).mpr field, member⟩

theorem normalTable_of_sorted {d : TableDef} (found : s.tables[id]? = some d)
    (all : d.fields.toList.zipIdx.filterMap (s.normalMember? id given) = members)
    (sorted : (members.map Prod.fst).Pairwise (· < ·)) :
    s.normalTable id given = .object members := by
  rw [normalTable, found, ← Json.ofMembers_of_sorted sorted, ← all]

theorem normalMembers?_cons_null {name : String} {field : Nat × FieldDef}
    (named : s.fieldNamed? id name = some field) :
    s.normalMembers? id ((name, .null) :: members) given = s.normalMembers? id members given := by
  rw [normalMembers?, named]
  rfl

theorem normalMembers?_cons {name : String} {i : Nat} {f : FieldDef} {json value : Json}
    (named : s.fieldNamed? id name = some (i, f)) (present : json.isNull = false)
    (live : f.deprecated = false)
    (normal : s.normal? f.type (s.fieldDefault? id i) json = some value) :
    s.normalMembers? id ((name, json) :: members) given =
      s.normalMembers? id members ((name, value) :: given) := by
  rw [normalMembers?, named]
  simp only [present, live, normal, if_false, Bool.false_eq_true]

/-- A member is skipped, or it is given to the field that it names. -/
private theorem normalMembers?_cons_cases {name : String} {json : Json}
    (normal : s.normalMembers? id ((name, json) :: members) given = some given') :
    (json.isNull ∧ s.normalMembers? id members given = some given') ∨
      (json.isNull = false ∧ ∃ i f value, s.fieldNamed? id name = some (i, f) ∧
        f.deprecated = false ∧ s.normal? f.type (s.fieldDefault? id i) json = some value ∧
          s.normalMembers? id members ((name, value) :: given) = some given') := by
  rw [normalMembers?] at normal
  split at normal
  · cases normal
  · rename_i i f named
    split at normal
    · rename_i null
      exact .inl ⟨null, normal⟩
    · rename_i present
      split at normal
      · cases normal
      · rename_i live
        split at normal
        · cases normal
        · rename_i value read
          exact .inr ⟨by simpa using present, i, f, value, named, by simpa using live, read, normal⟩

/-- The members that are not `null` are given, in the normal forms for the fields of their names. -/
theorem given_of_normalMembers? (normal : s.normalMembers? id members given = some given') :
    given'.map Prod.fst =
        ((members.filter fun m => !m.2.isNull).map Prod.fst).reverse ++ given.map Prod.fst ∧
      given ⊆ given' ∧
      ∀ name json, (name, json) ∈ members → json.isNull = false →
        ∃ i f value, s.fieldNamed? id name = some (i, f) ∧ f.deprecated = false ∧
          s.normal? f.type (s.fieldDefault? id i) json = some value ∧ (name, value) ∈ given' := by
  induction members generalizing given with
  | nil =>
    rw [normalMembers?] at normal
    obtain rfl := Option.some.inj normal
    exact ⟨rfl, List.Subset.refl _, by simp⟩
  | cons m rest ih =>
    obtain ⟨name, json⟩ := m
    rcases normalMembers?_cons_cases normal with ⟨null, normal⟩ | ⟨present, i, f, value, here⟩
    · obtain ⟨names, sub, values⟩ := ih normal
      rw [List.filter_cons_of_neg (by simp [null])]
      refine ⟨names, sub, fun name' json' member present => ?_⟩
      rcases List.mem_cons.mp member with same | member
      · cases same
        simp [null] at present
      · exact values name' json' member present
    · obtain ⟨named, live, read, normal⟩ := here
      obtain ⟨names, sub, values⟩ := ih normal
      rw [List.filter_cons_of_pos (by simpa using present)]
      refine ⟨by simp [names], fun _ member => sub (List.mem_cons_of_mem _ member),
        fun name' json' member present => ?_⟩
      rcases List.mem_cons.mp member with same | member
      · cases same
        exact ⟨i, f, value, named, live, read, sub List.mem_cons_self⟩
      · exact values name' json' member present

private theorem keys_normal? {default : Option Value} {json : Json} (valid : s.Valid)
    (normal : s.normal? (.table id) default (.object members) = some json) :
    json.keys.Nodup ∧ ∀ name, name ∈ json.keys ↔
      ∃ i f, s.field? id i = some f ∧ f.name = name ∧ f.deprecated = false ∧
        (f.type.isFixedWidth ∨ ∃ json, (name, json) ∈ members ∧ json.isNull = false) := by
  rw [normal?, Option.map_eq_some_iff] at normal
  obtain ⟨given, normal, rfl⟩ := normal
  obtain ⟨names, _⟩ := given_of_normalMembers? normal
  have isGiven (name : String) : (Json.member? name given).isSome ↔
      ∃ json, (name, json) ∈ members ∧ json.isNull = false := by
    rw [Json.isSome_member?, names]
    simp
  cases found : s.tables[id]? with
  | none => simp [normalTable, found, Json.keys, field?]
  | some d =>
    obtain ⟨members', object, distinct, member⟩ := mem_normalTable valid found
    rw [object]
    refine ⟨distinct, fun name => ?_⟩
    rw [Json.keys, List.mem_map]
    simp only [member, normalMember?_eq_some_iff]
    constructor
    · intro h
      obtain ⟨m, ⟨i, f, field, live, named, source⟩, rfl⟩ := h
      refine ⟨i, f, field, named.symm, live, ?_⟩
      rcases source with value | ⟨_, v, default, _⟩
      · exact .inr ((isGiven _).mp (by rw [named, value]; rfl))
      · left
        by_contra compound
        rw [Bool.not_eq_true] at compound
        cases default.symm.trans (fieldDefault?_of_compound field compound)
    · intro h
      obtain ⟨i, f, field, rfl, live, source⟩ := h
      cases value : Json.member? f.name given with
      | some json => exact ⟨(_, json), ⟨i, f, field, live, rfl, .inl value⟩, rfl⟩
      | none =>
        have fixed : f.type.isFixedWidth := by
          refine source.resolve_right fun h => ?_
          have there := (isGiven f.name).mpr h
          simp [value] at there
        obtain ⟨type, scalar⟩ := valid.scalarType field fixed
        obtain ⟨v, default, _⟩ := valid.fieldDefault field scalar
        exact ⟨(_, _), ⟨i, f, field, live, rfl, .inr ⟨value, v, default, rfl⟩⟩, rfl⟩

private theorem member?_normal? {default : Option Value} {name : String} {json json' : Json}
    (valid : s.Valid) (normal : s.normal? (.table id) default (.object members) = some json')
    (distinct : (members.map Prod.fst).Nodup) (member : (name, json) ∈ members)
    (present : json.isNull = false) :
    ∃ i f value members', s.fieldNamed? id name = some (i, f) ∧
      s.normal? f.type (s.fieldDefault? id i) json = some value ∧
        json' = .object members' ∧ Json.member? name members' = some value := by
  rw [normal?, Option.map_eq_some_iff] at normal
  obtain ⟨given, normal, rfl⟩ := normal
  obtain ⟨names, _, values⟩ := given_of_normalMembers? normal
  obtain ⟨i, f, value, named, live, read, inGiven⟩ := values name json member present
  have once : (given.map Prod.fst).Nodup := by
    rw [names, List.map_nil, List.append_nil, List.nodup_reverse]
    exact distinct.sublist (List.filter_sublist.map _)
  obtain ⟨field, rfl⟩ := field?_of_fieldNamed? named
  obtain ⟨d, found, _⟩ := Option.bind_eq_some_iff.mp field
  obtain ⟨members', object, distinct', member'⟩ := mem_normalTable valid found
  refine ⟨i, f, value, members', named, read, object, ?_⟩
  rw [Json.member?_eq_some_iff distinct', member']
  exact ⟨i, f, field, normalMember?_eq_some_iff.mpr
    ⟨live, rfl, .inl ((Json.member?_eq_some_iff once).mpr inGiven)⟩⟩

/-- What comes of the members of an object that are for one table. Its keys are those of the scalars and enums
that may still be used, and of the other fields for which there is a member that is not `null`. No such member is
dropped, and each is the value of the field that it names. -/
structure NormalObject (s : Schema) (id : Nat) (members : List (String × Json)) (json : Json) : Prop where
  distinct : json.keys.Nodup
  keys : ∀ name, name ∈ json.keys ↔ ∃ i f, s.field? id i = some f ∧ f.name = name ∧ f.deprecated = false ∧
    (f.type.isFixedWidth ∨ ∃ json, (name, json) ∈ members ∧ json.isNull = false)
  values : (members.map Prod.fst).Nodup → ∀ name given, (name, given) ∈ members → given.isNull = false →
    ∃ i f value members', s.fieldNamed? id name = some (i, f) ∧
      s.normal? f.type (s.fieldDefault? id i) given = some value ∧
        json = .object members' ∧ Json.member? name members' = some value

/-- At every level the normal form of an object is one of its table. -/
theorem normalObject_of_normal? {default : Option Value} {json : Json} (valid : s.Valid)
    (normal : s.normal? (.table id) default (.object members) = some json) : s.NormalObject id members json :=
  ⟨(keys_normal? valid normal).1, (keys_normal? valid normal).2,
    fun distinct _ _ => member?_normal? valid normal distinct⟩

end

end Schema
end FlatTable

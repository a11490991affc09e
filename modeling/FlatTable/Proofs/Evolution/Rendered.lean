import FlatTable.Proofs.Evolution.Extended
import FlatTable.Proofs.Json.Objects
import FlatTable.Proofs.View.Sound
import FlatTable.Proofs.Mutate.Skeleton

/-! Renderings by a schema and by one that extends it differ by the added fields. -/
namespace FlatTable
open Layout

namespace Json

/-- The members of an object are told by which they are, without their order. -/
theorem ofMembers_eq_of_perm {members sorted : List (String × Json)} (perm : sorted.Perm members)
    (inOrder : (sorted.map Prod.fst).Pairwise (· < ·)) : ofMembers members = .object sorted := by
  have distinct : (members.map Prod.fst).Nodup :=
    (perm.map Prod.fst).nodup_iff.mp (inOrder.imp String.ne_of_lt)
  obtain ⟨found, object, perm'⟩ := ofMembers_of_nodup distinct
  obtain ⟨kept, object', _, inOrder'⟩ := exists_ofMembers members
  obtain rfl : found = kept := by
    rw [object] at object'
    exact Json.object.inj object'
  rw [object]
  refine congrArg Json.object (List.Perm.eq_of_pairwise ?_ (List.pairwise_map.mp inOrder')
    (List.pairwise_map.mp inOrder) (perm'.trans perm.symm))
  exact fun m n _ _ before after => absurd after (String.lt_asymm before)

theorem exists_perm_ofMembers {members : List (String × Json)}
    (distinct : (members.map Prod.fst).Nodup) :
    ∃ sorted, ofMembers members = .object sorted ∧ sorted.Perm members ∧
      (sorted.map Prod.fst).Pairwise (· < ·) := by
  obtain ⟨found, object, perm⟩ := ofMembers_of_nodup distinct
  obtain ⟨kept, object', _, inOrder⟩ := exists_ofMembers members
  rw [object] at object'
  cases object'
  exact ⟨found, object, perm, inOrder⟩

end Json

/-- Elements are scalars, strings and tables. -/
theorem FieldVector.cases_get? {v : FieldVector} {j : Nat} {value : FieldValue}
    (get : v.get? j = some value) :
    (∃ a, value = .scalar a) ∨ (∃ text, value = .string text) ∨ ∃ t id, value = .table t id := by
  simp only [FieldVector.get?] at get
  split at get
  · split at get
    · obtain ⟨text, _, rfl⟩ := Option.map_eq_some_iff.mp get
      exact .inr (.inl ⟨text, rfl⟩)
    · obtain ⟨t, _, rfl⟩ := Option.map_eq_some_iff.mp get
      exact .inr (.inr ⟨t, _, rfl⟩)
    · obtain ⟨a, _, rfl⟩ := Option.map_eq_some_iff.mp get
      exact .inl ⟨a, rfl⟩
    · cases get
  · cases get

def Buffer.OnlyDeclared (b : Buffer) (s : Schema) (n : Nat × Nat) : Prop :=
  ∀ i, s.field? n.2 i = none → b.fieldPosition? n.1 i = none

namespace Schema

/-! ### Changing the objects of tables -/

mutual

/-- Changes the objects of all tables in a rendered value of this type, from the inside out: what becomes of
an object is told by `g` from the table and from the members, whose tables have been changed. -/
def mapTables (s : Schema) (g : Nat → List (String × Json) → Json) (type : FieldType) : Json → Json
  | .object members =>
    match type with
    | .table id => g id (s.mapTablesMembers g id members)
    | _ => .object members
  | .array items =>
    match type with
    | .vector (.table id) => .array (s.mapTablesItems g id items)
    | _ => .array items
  | json => json

def mapTablesItems (s : Schema) (g : Nat → List (String × Json) → Json) (id : Nat) :
    List Json → List Json
  | [] => []
  | j :: js => s.mapTables g (.table id) j :: s.mapTablesItems g id js

def mapTablesMembers (s : Schema) (g : Nat → List (String × Json) → Json) (id : Nat) :
    List (String × Json) → List (String × Json)
  | [] => []
  | (name, j) :: members =>
    (name, s.mapTables g ((s.typeOf? id name).getD .string) j) :: s.mapTablesMembers g id members

end

def declaredMembers (s : Schema) (id : Nat) (members : List (String × Json)) : Json :=
  .object (members.filter fun m => (s.typeOf? id m.1).isSome)

/-- Leaves out the fields that the schema does not declare, in a table and in the tables below it. -/
def withoutAdded (s : Schema) : FieldType → Json → Json := s.mapTables s.declaredMembers

/-- The defaults of the scalar and enum fields that another schema adds to a table, deprecated ones left
out. -/
def addedDefaults (s s' : Schema) (id : Nat) : List (String × Json) :=
  match s'.tables[id]? with
  | none => []
  | some t => t.fields.toList.zipIdx.filterMap fun (f, i) =>
      if (s.field? id i).isSome ∨ f.deprecated then none
      else (s'.fieldDefault? id i).map fun v => (f.name, s'.scalarJson (enumOf? f.type) v)

def defaultedMembers (s s' : Schema) (id : Nat) (members : List (String × Json)) : Json :=
  Json.ofMembers (members ++ s.addedDefaults s' id)

/-- Adds the defaults of added fields to a table and to the tables below it. -/
def withDefaults (s s' : Schema) : FieldType → Json → Json := s.mapTables (s.defaultedMembers s')

section
variable {s : Schema} {g : Nat → List (String × Json) → Json}

theorem mapTablesItems_eq (id : Nat) (items : List Json) :
    s.mapTablesItems g id items = items.map (s.mapTables g (.table id)) := by
  induction items with
  | nil => rw [mapTablesItems, List.map_nil]
  | cons j js ih => rw [mapTablesItems, ih, List.map_cons]

def mapMember (s : Schema) (g : Nat → List (String × Json) → Json) (id : Nat) (m : String × Json) :
    String × Json :=
  (m.1, s.mapTables g ((s.typeOf? id m.1).getD .string) m.2)

theorem mapTablesMembers_eq (id : Nat) (members : List (String × Json)) :
    s.mapTablesMembers g id members = members.map (s.mapMember g id) := by
  induction members with
  | nil => rw [mapTablesMembers, List.map_nil]
  | cons m members ih => rw [mapTablesMembers, ih, List.map_cons, mapMember]

private def elementType : ElementType → FieldType
  | .table id => .table id
  | .scalar _ | .enum _ | .string => .string

private theorem mapTables_string : s.mapTables g .string = id := by
  funext json
  cases json <;> simp only [mapTables, id]

private theorem mapTables_array (e : ElementType) (items : List Json) :
    s.mapTables g (.vector e) (.array items) = .array (items.map (s.mapTables g (elementType e))) := by
  cases e with
  | table id => simp only [mapTables, mapTablesItems_eq, elementType]
  | scalar _ | enum _ | string =>
    simp only [mapTables, elementType, mapTables_string, List.map_id]

private theorem mapTables_toJson (type : FieldType) (v : Value) :
    s.mapTables g type v.toJson = v.toJson := by
  unfold Value.toJson
  cases v.type.format? with
  | some f => dsimp only; split <;> simp only [mapTables]
  | none => dsimp only; split <;> simp only [mapTables]

private theorem mapTables_scalarJson (type : FieldType) (a : Schema) (enum : Option Nat) (v : Value) :
    s.mapTables g type (a.scalarJson enum v) = a.scalarJson enum v := by
  unfold scalarJson
  cases (enum.bind fun id => a.enums[id]?).bind fun e => v.asLong?.bind e.nameOf? with
  | some name => simp only [mapTables]
  | none => exact mapTables_toJson type v

private theorem mapTables_structJson (id : Nat) (a : Schema) (v : StructView) :
    s.mapTables g (.struct id) (a.structJson v) = a.structJson v := by
  unfold structJson
  cases a.structs[v.id]? <;> simp only [mapTables, Json.ofMembers]

end

/-! ### Values -/

/-- Another schema means the same by the fields that a schema declares. -/
structure Agrees (s a : Schema) : Prop where
  enum : ∀ {id i f}, s.field? id i = some f → ∀ e, enumOf? f.type = some e → a.enums[e]? = s.enums[e]?
  struct : ∀ {id i f}, s.field? id i = some f → ∀ n, f.type = .struct n → a.structs[n]? = s.structs[n]?
  field : ∀ {id i f}, s.field? id i = some f → ∀ t : TableView, t.field a id i = t.field s id i

theorem Agrees.refl (s : Schema) : s.Agrees s := ⟨fun _ _ _ => rfl, fun _ _ _ => rfl, fun _ _ => rfl⟩

theorem ExtendedBy.agrees {s s' : Schema} (extended : s.ExtendedBy s') (valid : s.Valid) :
    s.Agrees s' := by
  refine ⟨fun h e enum => extended.enumOf? (valid.field h).1 enum, fun h n type => ?_,
    fun h t => extended.field valid h⟩
  exact extended.struct ((valid.field h).1 .struct n (by rw [type]; rfl))

section
variable {s a c : Schema} {g : Nat → List (String × Json) → Json} {f f' : TableView → Nat → Json}
  {t : TableView} {id i : Nat} {d : FieldDef}

private theorem scalarJson_congr {enum : Option Nat}
    (same : ∀ e, enum = some e → a.enums[e]? = c.enums[e]?) (v : Value) :
    a.scalarJson enum v = c.scalarJson enum v := by
  cases enum with
  | none => rfl
  | some e => simp only [scalarJson, Option.bind_some, same e rfl]

private theorem structJson_congr {v : StructView} (same : a.structs[v.id]? = c.structs[v.id]?) :
    a.structJson v = c.structJson v := by
  have member (i : Nat) : v.member? a i = v.member? c i := by
    rw [StructView.member?, same, StructView.member?]
  simp only [structJson, same, member]
  rfl

variable (agrees : s.Agrees a) (agrees' : s.Agrees c)
  (nested : ∀ n ∈ t.buffer.nested s t.position id,
    s.mapTables g (.table n.2) (f ⟨t.buffer, n.1⟩ n.2) = f' ⟨t.buffer, n.1⟩ n.2)
include agrees agrees' nested

/-- A field of a table is rendered by schemas that mean the same by it up to the tables in it. -/
private theorem mapTables_valueJson (h : s.field? id i = some d) :
    s.mapTables g d.type (a.valueJson f (enumOf? d.type) (t.field s id i)) =
      c.valueJson f' (enumOf? d.type) (t.field s id i) := by
  have enums (e : Nat) (enum : enumOf? d.type = some e) : a.enums[e]? = c.enums[e]? :=
    (agrees.enum h e enum).trans (agrees'.enum h e enum).symm
  have table {t' : TableView} {id' : Nat}
      (below : t'.buffer = t.buffer ∧ (t'.position, id') ∈ t.buffer.nested s t.position id) :
      s.mapTables g (.table id') (f t' id') = f' t' id' := by
    obtain ⟨same, member⟩ := below
    have here := nested _ member
    rw [← same] at here
    exact here
  cases read : t.field s id i with
  | absent | string _ => simp only [valueJson, itemJson, mapTables]
  | scalar v =>
    simp only [valueJson, itemJson]
    rw [mapTables_scalarJson, scalarJson_congr enums]
  | table t' id' =>
    obtain ⟨d', holder, found, type, _, _⟩ := TableView.exists_table read
    obtain rfl : d = d' := Option.some.inj (h.symm.trans found)
    rw [type]
    exact table (TableView.nested_of_field read)
  | struct v =>
    obtain ⟨d', holder, n, bytes, found, _, type, _, _, rfl⟩ := TableView.exists_struct read
    obtain rfl : d = d' := Option.some.inj (h.symm.trans found)
    simp only [valueJson, itemJson]
    rw [type, mapTables_structJson, structJson_congr ((agrees.struct h n type).trans (agrees'.struct h n type).symm)]
  | vector v =>
    obtain ⟨d', holder, target, e, found, type, _, _, vector⟩ := TableView.exists_vector read
    obtain rfl : d = d' := Option.some.inj (h.symm.trans found)
    obtain ⟨length, _, _, same⟩ := FieldVector.at?_eq_some_iff.mp vector
    have item {x : FieldValue} (member : x ∈ v.items) :
        s.mapTables g (elementType e) (a.itemJson f (enumOf? d.type) x) =
          c.itemJson f' (enumOf? d.type) x := by
      obtain ⟨j, _, get⟩ := mem_readWhile member
      rcases FieldVector.cases_get? get with ⟨w, rfl⟩ | ⟨text, rfl⟩ | ⟨t', id', rfl⟩
      · simp only [itemJson]
        rw [mapTables_scalarJson, scalarJson_congr enums]
      · simp only [itemJson, mapTables]
      · obtain ⟨_, element, _⟩ := FieldVector.exists_table get
        rw [same] at element
        obtain rfl : e = .table id' := element
        exact table (TableView.nested_of_element read get)
    have items := List.map_congr_left fun x member => item (x := x) member
    simp only [valueJson]
    rw [type, mapTables_array, List.map_map, ← type]
    exact congrArg Json.array items

private theorem map_memberJson? (valid : s.Valid) (h : s.field? id i = some d) :
    (a.memberJson? f t id (d, i)).map (s.mapMember g id) = c.memberJson? f' t id (d, i) := by
  have value := mapTables_valueJson agrees agrees' nested h
  simp only [memberJson?, agrees.field h, agrees'.field h]
  cases here : t.field s id i with
  | absent => rfl
  | scalar _ | string _ | vector _ | table _ _ | struct _ =>
    rw [here] at value
    simp only [Option.map_some, mapMember, typeOf?_name valid h, Option.getD_some, value]

/-- The members that the fields of a table become. -/
private theorem map_members (valid : s.Valid) {table : TableDef} (found : s.tables[id]? = some table) :
    (table.fields.toList.zipIdx.filterMap (a.memberJson? f t id)).map (s.mapMember g id) =
      table.fields.toList.zipIdx.filterMap (c.memberJson? f' t id) := by
  rw [List.map_filterMap]
  refine List.filterMap_congr fun field member => ?_
  exact map_memberJson? agrees agrees' nested valid ((mem_zipIdx_fields found).mp member)

end

/-! ### Tables -/

theorem Valid.known_of_nested {s : Schema} (valid : s.Valid) {b : Buffer} {position id : Nat}
    {c : Nat × Nat} (member : c ∈ b.nested s position id) : c.2 < s.tables.size := by
  obtain ⟨i, f, holder, field, _, inField⟩ := Buffer.mem_nested.mp member
  have resolves := (valid.field field).1
  unfold Buffer.nestedAt at inField
  split at inField
  · rename_i nested type
    obtain ⟨_, _, _, rfl⟩ := Buffer.mem_tablesAt.mp inField
    exact resolves .table c.2 (by rw [type]; rfl)
  · rename_i nested type
    obtain ⟨_, _, _, rfl⟩ := Buffer.mem_tablesAt.mp inField
    exact resolves .table c.2 (by rw [type]; rfl)
  · cases inField

section
variable {s s' : Schema} (extended : s.ExtendedBy s') (valid : s.Valid) (valid' : s'.Valid)

theorem ExtendedBy.exists_added (extended : s.ExtendedBy s') (valid' : s'.Valid) {id : Nat}
    {d : TableDef} (found : s.tables[id]? = some d) :
    ∃ d' added, s'.tables[id]? = some d' ∧
      d'.fields.toList.zipIdx = d.fields.toList.zipIdx ++ added ∧
      ∀ x ∈ added, s'.field? id x.2 = some x.1 ∧ s.field? id x.2 = none ∧
        s.typeOf? id x.1.name = none := by
  obtain ⟨d', found', _, rest, fields⟩ := extended.tables id d found
  have split : d'.fields.toList.zipIdx =
      d.fields.toList.zipIdx ++ rest.zipIdx d.fields.toList.length := by
    rw [← fields, List.zipIdx_append, Nat.zero_add]
  refine ⟨d', _, found', split, fun x member => ⟨?_, ?_, ?_⟩⟩
  · refine (mem_zipIdx_fields found').mp ?_
    rw [split]
    exact List.mem_append_right _ member
  · obtain ⟨behind, _, _⟩ := List.mem_zipIdx member
    rw [Schema.field?, found, Option.bind_some]
    exact Array.getElem?_eq_none (by simpa using behind)
  · have distinct := (valid'.table found').distinct
    rw [← fields, List.map_append] at distinct
    have inRest : x.1 ∈ rest := by
      obtain ⟨_, _, same⟩ := List.mem_zipIdx member
      rw [same]
      exact List.getElem_mem _
    have new : d.fields.toList.find? (fun f => f.name == x.1.name) = none := by
      refine List.find?_eq_none.mpr fun f inTable named => ?_
      exact (List.nodup_append.mp distinct).2.2 f.name (List.mem_map_of_mem inTable) x.1.name
        (List.mem_map_of_mem inRest) (beq_iff_eq.mp named)
    rw [typeOf?, found, Option.bind_some, new, Option.map_none]

section
include extended valid valid'

/-- By the smaller schema a table is rendered without the added fields, whatever the bytes are. -/
theorem ExtendedBy.withoutAdded_tableJson (t : TableView) {id : Nat} (known : id < s.tables.size) :
    s.withoutAdded (.table id) (s'.tableJson t id) = s.tableJson t id := by
  induction left : t.buffer.size - t.position using Nat.strongRecOn generalizing t id with
  | ind left ih =>
    subst left
    have found := Array.getElem?_eq_getElem known
    generalize s.tables[id] = d at found
    obtain ⟨d', added, found', fields, isAdded⟩ := extended.exists_added valid' found
    have nested (n : Nat × Nat) (member : n ∈ t.buffer.nested s t.position id) :
        s.withoutAdded (.table n.2) (s'.tableJson ⟨t.buffer, n.1⟩ n.2) =
          s.tableJson ⟨t.buffer, n.1⟩ n.2 := by
      obtain ⟨behind, inside⟩ := Buffer.lt_of_mem_nested member
      exact ih (t.buffer.size - n.1) (by omega) ⟨t.buffer, n.1⟩ (valid.known_of_nested member) rfl
    have old := map_members (extended.agrees valid) (.refl s) nested valid found
    have new : ∀ m ∈ (added.filterMap (s'.memberJson? s'.tableJson t id)).map (s.mapMember s.declaredMembers id),
        s.typeOf? id m.1 = none := by
      intro m member
      obtain ⟨m', inAdded, rfl⟩ := List.mem_map.mp member
      obtain ⟨x, inTable, here⟩ := List.mem_filterMap.mp inAdded
      rw [(memberJson?_eq_some_iff.mp here).2]
      exact (isAdded x inTable).2.2
    have declared : ∀ m ∈ d.fields.toList.zipIdx.filterMap (s.memberJson? s.tableJson t id),
        (s.typeOf? id m.1).isSome := by
      intro m member
      obtain ⟨x, inTable, here⟩ := List.mem_filterMap.mp member
      rw [(memberJson?_eq_some_iff.mp here).2, typeOf?_name valid ((mem_zipIdx_fields found).mp inTable)]
      rfl
    obtain ⟨_, _, perm, distinct⟩ := membersJson_perm valid' s'.tableJson t found'
    obtain ⟨sorted, object, perm, inOrder⟩ :=
      Json.exists_perm_ofMembers ((perm.map Prod.fst).nodup_iff.mp distinct)
    rw [Schema.tableJson_eq, membersJson_eq found', object, withoutAdded, mapTables,
      mapTablesMembers_eq, declaredMembers, Schema.tableJson_eq, membersJson_eq found]
    symm
    apply Json.ofMembers_eq_of_perm
    · refine ((perm.map _).filter _).trans (List.Perm.of_eq ?_)
      rw [fields, List.filterMap_append, List.map_append, List.filter_append, old,
        List.filter_eq_self.mpr declared,
        List.filter_eq_nil_iff.mpr fun m member => by rw [new m member]; exact Bool.noConfusion,
        List.append_nil]
    · refine inOrder.sublist ?_
      have names : (sorted.map (s.mapMember s.declaredMembers id)).map Prod.fst = sorted.map Prod.fst := by
        rw [List.map_map]; rfl
      rw [← names]
      exact List.filter_sublist.map _

end

include valid' in
/-- An added field that is not stored becomes a member if it has a default. -/
private theorem memberJson?_of_missing {t : TableView} {id : Nat} {x : FieldDef × Nat}
    (declared : s'.field? id x.2 = some x.1) (new : s.field? id x.2 = none)
    (missing : t.buffer.fieldPosition? t.position x.2 = none) :
    s'.memberJson? s'.tableJson t id x =
      if (s.field? id x.2).isSome ∨ x.1.deprecated then none
      else (s'.fieldDefault? id x.2).map fun v => (x.1.name, s'.scalarJson (enumOf? x.1.type) v) := by
  rw [memberJson?]
  cases deprecated : x.1.deprecated with
  | true => simp [TableView.field, declared, deprecated]
  | false =>
    rw [TableView.field_of_missing valid' declared deprecated missing]
    cases s'.fieldDefault? id x.2 with
    | none => simp
    | some v => simp [new, valueJson, itemJson]

include valid' in
private theorem addedDefaults_eq {t : TableView} {id : Nat} {d d' : TableDef}
    {added : List (FieldDef × Nat)} (found : s.tables[id]? = some d) (found' : s'.tables[id]? = some d')
    (fields : d'.fields.toList.zipIdx = d.fields.toList.zipIdx ++ added)
    (isAdded : ∀ x ∈ added, s'.field? id x.2 = some x.1 ∧ s.field? id x.2 = none ∧
      s.typeOf? id x.1.name = none)
    (onlyDeclared : ∀ i, s.field? id i = none → t.buffer.fieldPosition? t.position i = none) :
    s.addedDefaults s' id = added.filterMap (s'.memberJson? s'.tableJson t id) := by
  rw [addedDefaults, found']
  dsimp only
  rw [fields, List.filterMap_append, List.filterMap_eq_nil_iff.mpr, List.nil_append]
  · refine List.filterMap_congr fun x member => ?_
    obtain ⟨declared, new, _⟩ := isAdded x member
    exact (memberJson?_of_missing valid' declared new (onlyDeclared x.2 new)).symm
  · intro x member
    rw [(mem_zipIdx_fields found).mp member]
    rfl

include extended valid valid' in
/-- By the larger schema a table is rendered with the defaults of the added fields, if neither it nor a
table below it stores one of them. -/
theorem ExtendedBy.withDefaults_tableJson (t : TableView) {id : Nat} (known : id < s.tables.size)
    (onlyDeclared : ∀ n, t.buffer.Below s (t.position, id) n → t.buffer.OnlyDeclared s n) :
    s.withDefaults s' (.table id) (s.tableJson t id) = s'.tableJson t id := by
  induction left : t.buffer.size - t.position using Nat.strongRecOn generalizing t id with
  | ind left ih =>
    subst left
    have found := Array.getElem?_eq_getElem known
    generalize s.tables[id] = d at found
    obtain ⟨d', added, found', fields, isAdded⟩ := extended.exists_added valid' found
    have nested (n : Nat × Nat) (member : n ∈ t.buffer.nested s t.position id) :
        s.withDefaults s' (.table n.2) (s.tableJson ⟨t.buffer, n.1⟩ n.2) =
          s'.tableJson ⟨t.buffer, n.1⟩ n.2 := by
      obtain ⟨behind, inside⟩ := Buffer.lt_of_mem_nested member
      exact ih (t.buffer.size - n.1) (by omega) ⟨t.buffer, n.1⟩ (valid.known_of_nested member)
        (fun m below => onlyDeclared m (below.head member)) rfl
    have old := map_members (.refl s) (extended.agrees valid) nested valid found
    have defaults := addedDefaults_eq valid' found found' fields isAdded (onlyDeclared _ .refl)
    obtain ⟨_, _, perm, distinct⟩ := membersJson_perm valid s.tableJson t found
    obtain ⟨sorted, object, perm, _⟩ :=
      Json.exists_perm_ofMembers ((perm.map Prod.fst).nodup_iff.mp distinct)
    obtain ⟨_, _, perm', distinct'⟩ := membersJson_perm valid' s'.tableJson t found'
    obtain ⟨sorted', object', perm', inOrder'⟩ :=
      Json.exists_perm_ofMembers ((perm'.map Prod.fst).nodup_iff.mp distinct')
    rw [Schema.tableJson_eq, membersJson_eq found, object, withDefaults, mapTables,
      mapTablesMembers_eq, defaultedMembers, Schema.tableJson_eq, membersJson_eq found', object']
    refine Json.ofMembers_eq_of_perm (perm'.trans ?_) inOrder'
    rw [fields, List.filterMap_append, ← old, ← defaults]
    exact ((perm.map _).symm).append_right _

end
end Schema
end FlatTable

import FlatTable.Proofs.Convert.DraftFinite
import FlatTable.Proofs.Json.Objects

/-! Drafts that are shown and read again. A table shows its defaults, so more may be read than was asked
for, but no more than is stored. -/
namespace FlatTable
open Build Builder

/-! ### What is read -/

namespace Schema
variable {s : Schema} {id i : Nat} {f : FieldDef} {json : Json}

/-- A field is found by its name. -/
theorem fieldNamed?_name (valid : s.Valid) (field : s.field? id i = some f) :
    s.fieldNamed? id f.name = some (i, f) := by
  obtain ⟨t, known, found⟩ := Option.bind_eq_some_iff.mp field
  have named : (t.fieldId? f.name).isSome := by
    rw [TableDef.fieldId?, Array.findIdx?_isSome, Array.any_eq_true']
    exact ⟨f, Array.mem_of_getElem? found, beq_self_eq_true _⟩
  obtain ⟨j, number⟩ := Option.isSome_iff_exists.mp named
  obtain ⟨g, found', name⟩ := TableDef.exists_field number
  obtain rfl : j = i := valid.number_unique (by rw [field?, known, Option.bind_some, found']) field name
  simp [fieldNamed?, known, number, found]

/-- The members of an object are read one by one. -/
theorem draftMembers?_cons_eq_some_iff {name : String} {rest : List (String × Json)}
    {fields : List (Nat × Draft)} :
    s.draftMembers? id ((name, json) :: rest) = some fields ↔
      ∃ i f, s.fieldNamed? id name = some (i, f) ∧
        (json.isNull ∧ s.draftMembers? id rest = some fields ∨
          json.isNull = false ∧ f.deprecated = false ∧ ∃ d others, s.draft? f json = some d ∧
            s.draftMembers? id rest = some others ∧ fields = (i, d) :: others) := by
  rw [draftMembers?]
  split
  · rename_i unknown
    simp [unknown]
  · rename_i i f named
    rw [named]
    constructor
    · intro read
      refine ⟨i, f, rfl, ?_⟩
      split at read
      · rename_i null
        exact .inl ⟨null, read⟩
      · rename_i present
        split at read
        · cases read
        · rename_i live
          obtain ⟨d, first, read⟩ := Option.bind_eq_some_iff.mp read
          obtain ⟨others, tail, rfl⟩ := Option.map_eq_some_iff.mp read
          exact .inr ⟨by simpa using present, by simpa using live, d, others, first, tail, rfl⟩
    · intro given
      obtain ⟨_, _, same, given⟩ := given
      cases same
      rcases given with ⟨null, tail⟩ | ⟨present, live, d, others, first, tail, rfl⟩
      · rw [if_pos null, tail]
      · rw [present, live, if_neg Bool.false_ne_true, if_neg Bool.false_ne_true]
        exact Option.bind_eq_some_iff.mpr ⟨d, first, by rw [tail]; rfl⟩

/-- What is read of an object: its members that are not `null`, in their order. -/
theorem names_of_draftMembers? {members : List (String × Json)} {fields : List (Nat × Draft)}
    (read : s.draftMembers? id members = some fields) :
    fields.map (fun e => s.nameOf id e.1) =
      (members.filter fun m => !m.2.isNull).map Prod.fst := by
  induction members generalizing fields with
  | nil =>
    rw [draftMembers?] at read
    cases read
    rfl
  | cons m rest ih =>
    obtain ⟨name, json⟩ := m
    obtain ⟨i, f, named, given⟩ := draftMembers?_cons_eq_some_iff.mp read
    rcases given with ⟨null, tail⟩ | ⟨present, live, d, others, first, tail, rfl⟩
    · rw [List.filter_cons_of_neg (by simp [null]), ih tail]
    · obtain ⟨field, rfl⟩ := field?_of_fieldNamed? named
      rw [List.filter_cons_of_pos (by simp [present]), List.map_cons, List.map_cons, ih tail,
        nameOf_eq field]

def Reads (s : Schema) (id : Nat) (m : String × Json) (e : Nat × Draft) : Prop :=
  m.2.isNull = false ∧ ∃ f, s.fieldNamed? id m.1 = some (e.1, f) ∧ f.deprecated = false ∧
    s.draft? f m.2 = some e.2

theorem mem_draftMembers? {members : List (String × Json)} {fields : List (Nat × Draft)}
    (read : s.draftMembers? id members = some fields) {e : Nat × Draft} :
    e ∈ fields ↔ ∃ m ∈ members, s.Reads id m e := by
  induction members generalizing fields with
  | nil =>
    rw [draftMembers?] at read
    cases read
    simp
  | cons m rest ih =>
    obtain ⟨name, json⟩ := m
    obtain ⟨i, f, named, given⟩ := draftMembers?_cons_eq_some_iff.mp read
    rw [List.exists_mem_cons_iff]
    rcases given with ⟨null, tail⟩ | ⟨present, live, d, others, first, tail, rfl⟩
    · simp [ih tail, Reads, null]
    · rw [List.mem_cons, ih tail]
      refine or_congr_left ⟨?_, ?_⟩
      · rintro rfl
        exact ⟨present, f, named, live, first⟩
      · intro reads
        obtain ⟨_, g, named', _, first'⟩ := reads
        obtain ⟨same, rfl⟩ := Prod.mk.inj (Option.some.inj (named.symm.trans named'))
        exact Prod.ext same.symm (Option.some.inj (first'.symm.trans first))

/-- An object can be read when each of its members can. -/
theorem exists_draftMembers? {members : List (String × Json)}
    (each : ∀ m ∈ members, (∃ e, s.fieldNamed? id m.1 = some e) ∧
      (m.2.isNull ∨ ∃ e, s.Reads id m e)) :
    ∃ fields, s.draftMembers? id members = some fields := by
  induction members with
  | nil => exact ⟨[], by rw [draftMembers?]⟩
  | cons m rest ih =>
    obtain ⟨⟨⟨⟨i, f⟩, named⟩, here⟩, each⟩ := List.forall_mem_cons.mp each
    obtain ⟨others, tail⟩ := ih each
    rcases here with null | ⟨⟨j, d⟩, present, g, named', live, first⟩
    · exact ⟨others, draftMembers?_cons_eq_some_iff.mpr ⟨i, f, named, .inl ⟨null, tail⟩⟩⟩
    · exact ⟨(j, d) :: others, draftMembers?_cons_eq_some_iff.mpr
        ⟨j, g, named', .inr ⟨present, live, d, others, first, tail, rfl⟩⟩⟩

private def ReadsAs (s : Schema) (id : Nat) (m : String × Json) (read : Option (Nat × Draft)) : Prop :=
  ∃ i f, s.fieldNamed? id m.1 = some (i, f) ∧ (m.2.isNull ∧ read = none ∨
    m.2.isNull = false ∧ f.deprecated = false ∧ ∃ d, s.draft? f m.2 = some d ∧ read = some (i, d))

private theorem exists_readsAs_iff {m : String × Json} {rest : List (String × Json)}
    {fields : List (Nat × Draft)} : s.draftMembers? id (m :: rest) = some fields ↔
      ∃ read others, s.ReadsAs id m read ∧ s.draftMembers? id rest = some others ∧
        fields = read.toList ++ others := by
  rw [draftMembers?_cons_eq_some_iff]
  constructor
  · rintro ⟨i, f, named, ⟨null, tail⟩ | ⟨present, live, d, others, here, tail, rfl⟩⟩
    · exact ⟨none, fields, ⟨i, f, named, .inl ⟨null, rfl⟩⟩, tail, rfl⟩
    · exact ⟨some (i, d), others, ⟨i, f, named, .inr ⟨present, live, d, here, rfl⟩⟩, tail, rfl⟩
  · rintro ⟨read, others, ⟨i, f, named, ⟨null, rfl⟩ | ⟨present, live, d, here, rfl⟩⟩, tail, rfl⟩
    · exact ⟨i, f, named, .inl ⟨null, tail⟩⟩
    · exact ⟨i, f, named, .inr ⟨present, live, d, others, here, tail, rfl⟩⟩

/-- In whatever order the members come, the same fields are read. -/
theorem exists_draftMembers?_of_perm {members members' : List (String × Json)}
    (order : members.Perm members') {fields : List (Nat × Draft)}
    (read : s.draftMembers? id members = some fields) :
    ∃ fields', s.draftMembers? id members' = some fields' ∧ fields.Perm fields' := by
  induction order generalizing fields with
  | nil => exact ⟨fields, read, .refl _⟩
  | cons m _ ih =>
    obtain ⟨here, others, reads, tail, rfl⟩ := exists_readsAs_iff.mp read
    obtain ⟨others', tail', same⟩ := ih tail
    exact ⟨_, exists_readsAs_iff.mpr ⟨here, others', reads, tail', rfl⟩, same.append_left _⟩
  | swap m m' rest =>
    obtain ⟨first, _, reads, tail, rfl⟩ := exists_readsAs_iff.mp read
    obtain ⟨second, others, reads', tail', rfl⟩ := exists_readsAs_iff.mp tail
    have tail := exists_readsAs_iff.mpr ⟨first, others, reads, tail', rfl⟩
    refine ⟨_, exists_readsAs_iff.mpr ⟨second, _, reads', tail, rfl⟩, ?_⟩
    rw [← List.append_assoc, ← List.append_assoc]
    exact List.perm_append_comm.append_right _
  | trans _ _ ih ih' =>
    obtain ⟨fields', read', same⟩ := ih read
    obtain ⟨fields'', read'', same'⟩ := ih' read'
    exact ⟨fields'', read'', same.trans same'⟩

theorem elementsOfJson_eq_ok_iff {e : ElementType} {t : ScalarType} {items : List Json}
    {values : List Value} (scalar : s.elementScalarType? e = some t) :
    s.elementsOfJson f e t items = .ok values ↔
      items.Forall₂ (fun item v => s.scalarOfJson? e.asField item = some v) values := by
  have read (type : FieldType) (step : Json → Except BuildError Value)
      (steps : ∀ item v, step item = .ok v ↔ s.scalarOfJson? type item = some v) :
      items.mapM step = .ok values ↔
        items.Forall₂ (fun item v => s.scalarOfJson? type item = some v) values := by
    simp only [mapM_eq_ok_iff, steps]
  cases e with
  | scalar t' =>
    obtain rfl : t' = t := Option.some.inj scalar
    refine read (.scalar t') _ fun item v => ?_
    cases s.scalarOfJson? (.scalar t') item <;> simp
  | enum id =>
    refine read (.enum id) _ fun item v => ?_
    cases s.scalarOfJson? (.enum id) item <;> simp
  | string | table id => cases scalar

/-! ### What is read can be built -/

theorem id_of_draftTable? {t : TableDraft} (read : s.draftTable? id json = some t) : t.id = id := by
  cases json with
  | object members =>
    rw [draftTable?] at read
    split at read
    · obtain ⟨fields, _, rfl⟩ := Option.map_eq_some_iff.mp read
      rfl
    · cases read
  | null | bool b | integer i | real bits | string text | array items =>
    rw [draftTable?] at read
    · cases read
    all_goals simp

theorem ids_of_draftTables? {items : List Json} {drafts : List TableDraft}
    (read : s.draftTables? id items = some drafts) : ∀ t ∈ drafts, t.id = id := by
  induction items generalizing drafts with
  | nil =>
    rw [draftTables?] at read
    cases read
    simp
  | cons json rest ih =>
    rw [draftTables?] at read
    obtain ⟨t, first, read⟩ := Option.bind_eq_some_iff.mp read
    obtain ⟨others, tail, rfl⟩ := Option.map_eq_some_iff.mp read
    exact List.forall_mem_cons.mpr ⟨id_of_draftTable? first, ih tail⟩

theorem draftVector?_eq_some_iff {drafts : List TableDraft} :
    s.draftVector? id json = some drafts ↔
      ∃ items, json = .array items ∧ s.draftTables? id items = some drafts := by
  cases json with
  | array items => simp [draftVector?]
  | null | bool b | integer i | real bits | string text | object members =>
    rw [draftVector?] <;> simp

/-- A field can be set to what is read for it. -/
theorem hasType_of_draft? {d : Draft} (read : s.draft? f json = some d) : d.HasType s f.type := by
  unfold draft? draftMember? at read
  cases type : f.type with
  | scalar t | enum e =>
    rw [type] at read
    obtain ⟨v, value, rfl⟩ := Option.map_eq_some_iff.mp read
    exact type_of_scalarOfJson? value
  | struct struct =>
    rw [type] at read
    obtain ⟨values, value, rfl⟩ := Option.map_eq_some_iff.mp read
    exact types_of_structOfJson (toOption_eq_some_iff.mp value)
  | table nested =>
    rw [type] at read
    obtain ⟨t, table, rfl⟩ := Option.map_eq_some_iff.mp read
    rw [Draft.HasType, id_of_draftTable? table]
  | string =>
    rw [type] at read
    cases json with
    | string text =>
      cases read
      rfl
    | null | bool b | integer i | real bits | array items | object members => cases read
  | vector e =>
    rw [type] at read
    cases e with
    | table nested =>
      obtain ⟨drafts, tables, rfl⟩ := Option.map_eq_some_iff.mp read
      obtain ⟨items, _, tables⟩ := draftVector?_eq_some_iff.mp tables
      exact ⟨nested, rfl, ids_of_draftTables? tables⟩
    | string =>
      cases json with
      | array items =>
        obtain ⟨texts, _, rfl⟩ := Option.map_eq_some_iff.mp read
        rfl
      | null | bool b | integer i | real bits | string text | object members => cases read
    | scalar t | enum id =>
      cases json with
      | array items =>
        obtain ⟨t, scalar, read⟩ := Option.bind_eq_some_iff.mp read
        obtain ⟨values, _, rfl⟩ := Option.map_eq_some_iff.mp read
        exact ⟨_, rfl, scalar⟩
      | null | bool b | integer i | real bits | string text | object members => cases read

theorem scalarType?_asField (e : ElementType) :
    s.scalarType? e.asField = s.elementScalarType? e := by
  cases e <;> rfl

/-- The parts of what is read for a field can be built if the tables in it can be. -/
private theorem sound_of_member {d : Draft} (read : s.draft? f json = some d)
    (table : ∀ nested t, s.draftTable? nested json = some t → t.Sound s)
    (tables : ∀ nested drafts, s.draftVector? nested json = some drafts →
      ∀ t ∈ drafts, t.Sound s) : d.Sound s := by
  unfold draft? draftMember? at read
  split at read
  · obtain ⟨v, _, rfl⟩ := Option.map_eq_some_iff.mp read
    exact .scalar
  · obtain ⟨v, _, rfl⟩ := Option.map_eq_some_iff.mp read
    exact .scalar
  · obtain ⟨values, _, rfl⟩ := Option.map_eq_some_iff.mp read
    exact .struct
  · obtain ⟨t, here, rfl⟩ := Option.map_eq_some_iff.mp read
    exact .table (table _ t here)
  · obtain ⟨drafts, here, rfl⟩ := Option.map_eq_some_iff.mp read
    exact .tables (tables _ drafts here)
  · split at read
    · cases read
      exact .string
    · cases read
  · split at read
    · obtain ⟨texts, _, rfl⟩ := Option.map_eq_some_iff.mp read
      exact .strings
    · obtain ⟨t, scalar, read⟩ := Option.bind_eq_some_iff.mp read
      obtain ⟨values, elements, rfl⟩ := Option.map_eq_some_iff.mp read
      refine .scalars fun v member => ?_
      have all := (elementsOfJson_eq_ok_iff scalar).mp (toOption_eq_some_iff.mp elements)
      obtain ⟨i, rfl⟩ := List.mem_iff_get.mp member
      have value := type_of_scalarOfJson? (all.get (by rw [all.length_eq]; exact i.isLt) i.isLt)
      rw [scalarType?_asField, scalar] at value
      exact (Option.some.inj value).symm
    · cases read

mutual

/-- What is read of JSON whose objects are sorted can be built. -/
theorem sound_of_draftTable? (s : Schema) {id : Nat} (json : Json) (sorted : json.Sorted)
    {t : TableDraft} (read : s.draftTable? id json = some t) : t.Sound s := by
  match json with
  | .object members =>
    rw [draftTable?] at read
    split at read
    · rename_i known
      obtain ⟨fields, fieldsRead, rfl⟩ := Option.map_eq_some_iff.mp read
      obtain ⟨inOrder, sorted⟩ := sorted
      refine .mk known ?_ (fun e member => ?_) (sound_of_draftMembers? s members sorted fieldsRead)
      · have names := names_of_draftMembers? fieldsRead
        have ascending := inOrder.sublist (List.filter_sublist (p := fun m => !m.2.isNull) |>.map _)
        rw [← names] at ascending
        exact List.pairwise_map.mp ascending
      · obtain ⟨m, _, _, f, named, live, here⟩ := (mem_draftMembers? fieldsRead).mp member
        exact ⟨f, (field?_of_fieldNamed? named).1, live, hasType_of_draft? here⟩
    · cases read
  | .null | .bool _ | .integer _ | .real _ | .string _ | .array _ =>
    rw [draftTable?] at read
    · cases read
    all_goals simp

theorem sound_of_draftMembers? (s : Schema) {id : Nat} (members : List (String × Json))
    (sorted : Json.SortedMembers members) {fields : List (Nat × Draft)}
    (read : s.draftMembers? id members = some fields) : ∀ e ∈ fields, e.2.Sound s := by
  match members with
  | [] =>
    rw [draftMembers?] at read
    cases read
    simp
  | (name, json) :: rest =>
    obtain ⟨here, later⟩ := sorted
    obtain ⟨i, f, _, given⟩ := draftMembers?_cons_eq_some_iff.mp read
    rcases given with ⟨_, tail⟩ | ⟨_, _, d, others, first, tail, rfl⟩
    · exact sound_of_draftMembers? s rest later tail
    · refine List.forall_mem_cons.mpr ⟨?_, sound_of_draftMembers? s rest later tail⟩
      exact sound_of_member first (fun _ _ table => sound_of_draftTable? s json here table)
        fun _ _ tables => sound_of_draftVector? s json here tables

theorem sound_of_draftVector? (s : Schema) {id : Nat} (json : Json) (sorted : json.Sorted)
    {drafts : List TableDraft} (read : s.draftVector? id json = some drafts) :
    ∀ t ∈ drafts, t.Sound s := by
  match json with
  | .array items =>
    rw [draftVector?] at read
    exact sound_of_draftTables? s items sorted read
  | .null | .bool _ | .integer _ | .real _ | .string _ | .object _ =>
    rw [draftVector?] at read
    · cases read
    all_goals simp

theorem sound_of_draftTables? (s : Schema) {id : Nat} (items : List Json)
    (sorted : Json.SortedItems items) {drafts : List TableDraft}
    (read : s.draftTables? id items = some drafts) : ∀ t ∈ drafts, t.Sound s := by
  match items with
  | [] =>
    rw [draftTables?] at read
    cases read
    simp
  | json :: rest =>
    obtain ⟨here, later⟩ := sorted
    rw [draftTables?] at read
    obtain ⟨t, first, read⟩ := Option.bind_eq_some_iff.mp read
    obtain ⟨others, tail, rfl⟩ := Option.map_eq_some_iff.mp read
    exact List.forall_mem_cons.mpr
      ⟨sound_of_draftTable? s json here first, sound_of_draftTables? s rest later tail⟩

end

end Schema

/-! ### What is shown -/

theorem Json.isNull_eq_false_iff {json : Json} : json.isNull = false ↔ json ≠ .null := by
  cases json <;> simp [Json.isNull]

theorem Json.exists_of_member? {name : String} {json : Json} {members : List (String × Json)}
    (found : Json.member? name members = some json) : (name, json) ∈ members := by
  obtain ⟨⟨name', _⟩, first, rfl⟩ := Option.map_eq_some_iff.mp found
  obtain rfl : name' = name := by simpa using List.find?_some first
  exact List.mem_of_find?_eq_some first

section
variable {s : Schema}

theorem Schema.sorted_scalarJson (enum : Option Nat) (v : Value) :
    (s.scalarJson enum v).Sorted := by
  unfold Schema.scalarJson Value.toJson
  dsimp only
  split
  · trivial
  · split
    · split <;> trivial
    · split <;> trivial

theorem StructDef.sorted_json (d : StructDef) (values : List Value) : (d.json s values).Sorted := by
  refine Json.sorted_ofMembers fun m member => ?_
  obtain ⟨⟨_, v⟩, _, rfl⟩ := List.mem_map.mp member
  show (s.scalarJson none v).Sorted
  exact Schema.sorted_scalarJson _ _

mutual

/-- The objects that drafts are shown as are sorted. -/
theorem Draft.sorted_json (d : Draft) (type : FieldType) : (d.json s type).Sorted := by
  match d with
  | .scalar v =>
    rw [Draft.json]
    exact Schema.sorted_scalarJson _ _
  | .struct values =>
    rw [Draft.json]
    cases TableArgs.structOf? s type with
    | none => trivial
    | some d => exact d.sorted_json values
  | .string text =>
    rw [Draft.json]
    trivial
  | .scalars t items =>
    rw [Draft.json, Json.Sorted, Json.sortedItems_iff]
    exact List.forall_mem_map.mpr fun v _ => Schema.sorted_scalarJson _ _
  | .strings texts =>
    rw [Draft.json, Json.Sorted, Json.sortedItems_iff]
    exact List.forall_mem_map.mpr fun text _ => trivial
  | .table t =>
    rw [Draft.json]
    exact TableDraft.sorted_json t
  | .tables items =>
    rw [Draft.json, Json.Sorted]
    exact TableDraft.sorted_jsonEach items

theorem TableDraft.sorted_json (t : TableDraft) : (t.json s).Sorted := by
  match t with
  | .mk id fields =>
    rw [TableDraft.json, Schema.normalTable]
    cases s.tables[id]? with
    | none => exact ⟨.nil, trivial⟩
    | some d =>
      refine Json.sorted_ofMembers fun m member => ?_
      obtain ⟨field, _, here⟩ := List.mem_filterMap.mp member
      obtain ⟨_, name, given | ⟨_, v, _, shown⟩⟩ := Schema.normalMember?_eq_some_iff.mp here
      · rw [← name] at given
        exact Json.sortedMembers_iff.mp (Draft.sorted_jsonEach id fields) m
          (Json.exists_of_member? given)
      · rw [shown]
        exact Schema.sorted_scalarJson _ _

theorem Draft.sorted_jsonEach (id : Nat) (fields : List (Nat × Draft)) :
    Json.SortedMembers (Draft.jsonEach s id fields) := by
  match fields with
  | [] => rw [Draft.jsonEach, Json.SortedMembers]; trivial
  | (i, d) :: rest =>
    rw [Draft.jsonEach, Json.SortedMembers]
    exact ⟨Draft.sorted_json d _, Draft.sorted_jsonEach id rest⟩

theorem TableDraft.sorted_jsonEach (items : List TableDraft) :
    Json.SortedItems (TableDraft.jsonEach s items) := by
  match items with
  | [] => rw [TableDraft.jsonEach, Json.SortedItems]; trivial
  | t :: rest =>
    rw [TableDraft.jsonEach, Json.SortedItems]
    exact ⟨TableDraft.sorted_json t, TableDraft.sorted_jsonEach rest⟩

end

/-! ### Reading it again -/

theorem Value.numEq_self {v : Value} (finite : v.isFinite) : v.numEq v := by
  unfold Value.isFinite at finite
  unfold Value.numEq
  cases format : v.type.format? with
  | none => simp
  | some f =>
    rw [format] at finite
    have below : f.magnitude v.pattern < f.infinity := by
      simpa [Ieee.Format.isFinite] using finite
    simp [Ieee.Format.numEq, Ieee.Format.isNaN, Nat.le_of_lt below]

theorem Json.textsOfJson?_strings (texts : List String) :
    Schema.textsOfJson? (texts.map .string) = some texts := by
  induction texts with
  | nil => rfl
  | cons text texts ih =>
    rw [Schema.textsOfJson?] at ih ⊢
    rw [List.map_cons, List.mapM_cons, ih]
    rfl

/-- A struct is read as it is shown. -/
theorem Schema.structOfJson_json (valid : s.Valid) (unscoped : s.Unscoped) {f : FieldDef} {id : Nat}
    {d : StructDef} {values : List Value} (known : s.structs[id]? = some d)
    (types : values.map Value.type = d.members.map Member.type)
    (finite : ∀ v ∈ values, v.isFinite) : s.structOfJson f id (d.json s values) = .ok values := by
  have length : d.members.length = values.length := by
    simpa using (congrArg List.length types).symm
  have names : ((d.members.zip values).map fun e => (e.1.name, s.scalarJson none e.2)).map Prod.fst =
      d.members.map Member.name := by
    have firsts := congrArg (List.map Member.name) (List.map_fst_zip (Nat.le_of_eq length))
    rw [List.map_map] at firsts ⊢
    exact firsts
  have distinct := (valid.structs d (Array.mem_toList_iff.mpr (Array.mem_of_getElem? known))).distinct
  obtain ⟨members, object, perm⟩ := Json.ofMembers_of_nodup (names ▸ distinct)
  have once : (members.map Prod.fst).Nodup :=
    (perm.map Prod.fst).nodup_iff.mpr (names ▸ distinct)
  have unknown : members.find? (fun m => (d.memberId? m.1).isNone) = none := by
    refine List.find?_eq_none.mpr fun m member => ?_
    have named := List.mem_map_of_mem (f := Prod.fst) (perm.mem_iff.mp member)
    rw [names] at named
    obtain ⟨n, inMembers, same⟩ := List.mem_map.mp named
    have isSome : (d.memberId? m.1).isSome := by
      rw [StructDef.memberId?, List.findIdx?_isSome, List.any_eq_true]
      exact ⟨n, inMembers, by simp [same]⟩
    simpa [Option.isSome_iff_ne_none] using isSome
  rw [StructDef.json, object]
  simp only [structOfJson, known, unknown]
  refine mapM_eq_ok_iff.mpr (List.forall₂_iff_zip.mpr ⟨length, fun {m v} pair => ?_⟩)
  have shown : (m.name, s.scalarJson none v) ∈ members :=
    perm.mem_iff.mpr (List.mem_map.mpr ⟨(m, v), pair, rfl⟩)
  have type : m.type = v.type := by
    obtain ⟨i, here⟩ := List.mem_iff_getElem?.mp pair
    obtain ⟨first, second⟩ := List.getElem?_zip_eq_some.mp here
    have both := congrArg (·[i]?) types
    simpa [first, second, eq_comm] using both
  have scalar : s.scalarType? (.scalar m.type) = some v.type := by rw [scalarType?, type]
  have read : s.scalarOfJson? (.scalar m.type) (s.scalarJson none v) = some v :=
    scalarOfJson?_scalarJson valid unscoped scalar (finite v (List.of_mem_zip pair).2)
  rw [(Json.member?_eq_some_iff once).mpr shown]
  simp only [read]

theorem Schema.Ordered.eq_of_mem_iff {α : Type} {id : Nat} {fields fields' : List (Nat × α)}
    (ordered : s.Ordered id fields) (ordered' : s.Ordered id fields')
    (same : ∀ e, e ∈ fields ↔ e ∈ fields') : fields = fields' := by
  have distinct := ordered.nodup.of_map
  have distinct' := ordered'.nodup.of_map
  refine ((List.perm_ext_iff_of_nodup distinct distinct').mpr same).eq_of_pairwise ?_ ordered ordered'
  intro e e' _ _ before after
  exact absurd after (String.lt_asymm before)

theorem Schema.draft?_of_scalar {f : FieldDef} {json : Json} {t : ScalarType}
    (scalar : s.scalarType? f.type = some t) :
    s.draft? f json = (s.scalarOfJson? f.type json).map .scalar := by
  unfold Schema.draft? Schema.draftMember?
  cases type : f.type with
  | scalar t | enum id => rfl
  | string | struct id | table id | vector e => cases type ▸ scalar

/-- The default of a field, read as it is shown, is left out again. -/
private theorem exists_default (valid : s.Valid) (unscoped : s.Unscoped) {id i : Nat} {f : FieldDef}
    (field : s.field? id i = some f) {v : Value} (default : s.fieldDefault? id i = some v)
    (present : (s.scalarJson (Schema.enumOf? f.type) v).isNull = false) :
    ∃ d, s.draft? f (s.scalarJson (Schema.enumOf? f.type) v) = some d ∧ d.omitted s id i := by
  have finite : v.isFinite := by
    by_contra infinite
    rw [Bool.not_eq_true] at infinite
    exact Json.isNull_eq_false_iff.mp present ((Schema.scalarJson_eq_null_iff _).mpr infinite)
  have scalar : s.scalarType? f.type = some v.type := by
    cases isScalar : s.scalarType? f.type with
    | none => simp [Schema.fieldDefault?, field, isScalar] at default
    | some t =>
      obtain ⟨v', default', rfl⟩ := valid.fieldDefault field isScalar
      rw [Option.some.inj (default.symm.trans default')]
  refine ⟨.scalar v, ?_, ?_⟩
  · rw [Schema.draft?_of_scalar scalar, Schema.scalarOfJson?_scalarJson valid unscoped scalar finite,
      Option.map_some]
  · simp [Draft.omitted, isDefault, default, Value.numEq_self finite]

/-- A table is read as it is shown when its fields are: then defaults are read in addition. -/
private theorem TableDraft.reread_of_each (valid : s.Valid) (unscoped : s.Unscoped) {id : Nat}
    {fields : List (Nat × Draft)} (sound : (TableDraft.mk id fields).Sound s)
    (each : ∀ e ∈ fields, ∀ f, s.field? id e.1 = some f →
      (e.2.json s f.type).isNull = false ∧
        ∃ d, s.draft? f (e.2.json s f.type) = some d ∧ d.stored s false = e.2.stored s false) :
    ∃ t, s.draftTable? id ((TableDraft.mk id fields).json s) = some t ∧
      t.stored s false = (TableDraft.mk id fields).stored s false := by
  obtain ⟨known, ordered, typed, _⟩ := sound
  obtain ⟨d, found⟩ := Option.isSome_iff_exists.mp known
  obtain ⟨members, object, distinct, member⟩ :=
    @Schema.mem_normalTable s id (Draft.jsonEach s id fields) valid d found
  have asked {i : Nat} {f : FieldDef} (field : s.field? id i = some f) {json : Json}
      (given : Json.member? f.name (Draft.jsonEach s id fields) = some json) :
      ∃ d, (i, d) ∈ fields ∧ json = d.json s f.type := by
    by_cases among : i ∈ fields.map Prod.fst
    · obtain ⟨⟨j, d⟩, inFields, rfl⟩ := List.mem_map.mp among
      rw [Draft.member?_jsonEach ordered field inFields] at given
      exact ⟨d, inFields, (Option.some.inj given).symm⟩
    · rw [Draft.member?_jsonEach_eq_none valid typed field among] at given
      cases given
  -- A member is either what a field was set to or a default.
  have source {m : String × Json} (inMembers : m ∈ members) : ∃ i f, s.field? id i = some f ∧
      f.deprecated = false ∧ m.1 = f.name ∧
        ((∃ d, (i, d) ∈ fields ∧ m.2 = d.json s f.type) ∨
          ∃ v, s.fieldDefault? id i = some v ∧ m.2 = s.scalarJson (Schema.enumOf? f.type) v) := by
    obtain ⟨i, f, field, here⟩ := (member m).mp inMembers
    obtain ⟨live, name, given | ⟨_, v, default, shown⟩⟩ := Schema.normalMember?_eq_some_iff.mp here
    · exact ⟨i, f, field, live, name, .inl (asked field given)⟩
    · exact ⟨i, f, field, live, name, .inr ⟨v, default, shown⟩⟩
  obtain ⟨fields', read⟩ : ∃ fields', s.draftMembers? id members = some fields' := by
    refine Schema.exists_draftMembers? fun m inMembers => ?_
    obtain ⟨i, f, field, live, name, shown⟩ := source inMembers
    have named := Schema.fieldNamed?_name valid field
    rw [← name] at named
    refine ⟨⟨_, named⟩, ?_⟩
    rcases shown with ⟨d, inFields, shown⟩ | ⟨v, default, shown⟩
    · obtain ⟨present, d', here, _⟩ := each _ inFields f field
      exact .inr ⟨(i, d'), by rw [shown]; exact present, f, named, live, by rw [shown]; exact here⟩
    · cases present : m.2.isNull with
      | true => exact .inl rfl
      | false =>
        rw [shown] at present
        obtain ⟨d', here, _⟩ := exists_default valid unscoped field default present
        exact .inr ⟨(i, d'), by rw [shown]; exact present, f, named, live, by rw [shown]; exact here⟩
  have tableRead : s.draftTable? id ((TableDraft.mk id fields).json s) = some (.mk id fields') := by
    rw [TableDraft.json, object, Schema.draftTable?, if_pos known, read, Option.map_some]
  refine ⟨.mk id fields', tableRead, ?_⟩
  obtain ⟨_, ordered', _, _⟩ := Schema.sound_of_draftTable? s _ (TableDraft.sorted_json _) tableRead
  · rw [TableDraft.stored, TableDraft.stored, ordered'.storedEach.eq_of_mem_iff ordered.storedEach]
    intro e
    rw [Draft.mem_storedEach, Draft.mem_storedEach]
    constructor
    · intro given
      obtain ⟨d', inFields', stays, isStored⟩ := given
      obtain ⟨m, inMembers, present, g, named, _, here⟩ := (Schema.mem_draftMembers? read).mp inFields'
      obtain ⟨i, f, field, live, name, shown⟩ := source inMembers
      rw [name, Schema.fieldNamed?_name valid field] at named
      obtain ⟨rfl, rfl⟩ := Prod.mk.inj (Option.some.inj named)
      rcases shown with ⟨d, inFields, shown⟩ | ⟨v, default, shown⟩
      · obtain ⟨_, d'', again, same⟩ := each _ inFields f field
        rw [shown, again] at here
        obtain rfl := Option.some.inj here
        rw [← Draft.omitted_stored d'' false, same, Draft.omitted_stored] at stays
        exact ⟨d, inFields, stays, isStored.trans same⟩
      · rw [shown] at present here
        obtain ⟨d'', again, omitted⟩ := exists_default valid unscoped field default present
        rw [again] at here
        obtain rfl := Option.some.inj here
        rw [omitted] at stays
        cases stays
    · intro given
      obtain ⟨d, inFields, stays, isStored⟩ := given
      obtain ⟨f, field, live, _⟩ := typed _ inFields
      obtain ⟨present, d', here, same⟩ := each _ inFields f field
      rw [← Draft.omitted_stored d false, ← same, Draft.omitted_stored] at stays
      refine ⟨d', (Schema.mem_draftMembers? read).mpr ⟨(f.name, d.json s f.type), ?_, present, f,
        Schema.fieldNamed?_name valid field, live, here⟩, stays, isStored.trans same.symm⟩
      exact (member _).mpr ⟨e.1, f, field, Schema.normalMember?_eq_some_iff.mpr
        ⟨live, rfl, .inl (Draft.member?_jsonEach ordered field inFields)⟩⟩

mutual

/-- What a field is set to is read as it is shown, but for defaults in its tables. -/
theorem Draft.reread (valid : s.Valid) (unscoped : s.Unscoped) (d : Draft) {f : FieldDef}
    (sound : d.Sound s) (finite : d.Finite) (hasType : d.HasType s f.type) :
    (d.json s f.type).isNull = false ∧
      ∃ d', s.draft? f (d.json s f.type) = some d' ∧ d'.stored s false = d.stored s false := by
  match d with
  | .scalar v =>
    cases finite with
    | scalar finite =>
      refine ⟨?_, .scalar v, ?_, rfl⟩
      · rw [Json.isNull_eq_false_iff, Draft.json, ne_eq, Schema.scalarJson_eq_null_iff, finite]
        simp
      · rw [Schema.draft?_of_scalar hasType, Draft.json,
          Schema.scalarOfJson?_scalarJson valid unscoped hasType finite, Option.map_some]
  | .struct values =>
    obtain ⟨e, struct, types⟩ := hasType
    cases finite with
    | struct finite =>
      cases type : f.type with
      | struct id =>
        rw [type] at struct
        have shown : (Draft.struct values).json s (.struct id) = e.json s values := by
          rw [Draft.json, struct, Option.map_some, Option.getD_some]
        refine ⟨by rw [shown]; rfl, .struct values, ?_, rfl⟩
        simp only [Schema.draft?, Schema.draftMember?, type]
        rw [shown, Schema.structOfJson_json valid unscoped struct types finite]
        rfl
      | scalar t | enum id | string | table id | vector e => cases type ▸ struct
  | .string text =>
    have type : f.type = .string := hasType
    refine ⟨by rw [Draft.json]; rfl, .string text, ?_, rfl⟩
    simp only [Schema.draft?, Schema.draftMember?, type, Draft.json]
  | .scalars t items =>
    obtain ⟨e, type, scalar⟩ := hasType
    cases sound with
    | scalars typed =>
      cases finite with
      | scalars finite =>
        refine ⟨by rw [Draft.json]; rfl, .scalars t items, ?_, rfl⟩
        have read : s.elementsOfJson f e t
            (items.map (s.scalarJson (Schema.enumOf? (.vector e)))) = .ok items := by
          refine (Schema.elementsOfJson_eq_ok_iff scalar).mpr
            (List.forall₂_map_left_iff.mpr (List.forall₂_same.mpr fun v member => ?_))
          have enum : Schema.enumOf? (.vector e) = Schema.enumOf? e.asField := by
            cases e <;> rfl
          rw [enum]
          refine Schema.scalarOfJson?_scalarJson valid unscoped ?_ (finite v member)
          rw [Schema.scalarType?_asField, scalar, typed v member]
        simp only [Schema.draft?, Schema.draftMember?, type, Draft.json]
        cases e with
        | scalar t' | enum id =>
          dsimp only
          rw [scalar, Option.bind_some, read]
          rfl
        | string | table id => cases scalar
  | .strings texts =>
    have type : f.type = .vector .string := hasType
    refine ⟨by rw [Draft.json]; rfl, .strings texts, ?_, rfl⟩
    simp only [Schema.draft?, Schema.draftMember?, type, Draft.json]
    rw [Json.textsOfJson?_strings, Option.map_some]
  | .table t =>
    have type : f.type = .table t.id := hasType
    cases sound with
    | table sound =>
      cases finite with
      | table finite =>
        obtain ⟨present, t', read, same⟩ := TableDraft.reread valid unscoped t sound finite
        rw [Draft.json]
        refine ⟨present, .table t', ?_, by rw [Draft.stored, Draft.stored, same]⟩
        simp only [Schema.draft?, Schema.draftMember?, type]
        rw [read, Option.map_some]
  | .tables items =>
    obtain ⟨id, type, ids⟩ := hasType
    cases sound with
    | tables sound =>
      cases finite with
      | tables finite =>
        obtain ⟨drafts, read, same⟩ := TableDraft.rereadEach valid unscoped items ids sound finite
        rw [Draft.json]
        refine ⟨rfl, .tables drafts, ?_, by rw [Draft.stored, Draft.stored, same]⟩
        simp only [Schema.draft?, Schema.draftMember?, type]
        rw [Schema.draftVector?, read, Option.map_some]

/-- A table is read as it is shown, but for defaults. -/
theorem TableDraft.reread (valid : s.Valid) (unscoped : s.Unscoped) (t : TableDraft)
    (sound : t.Sound s) (finite : t.Finite) :
    (t.json s).isNull = false ∧
      ∃ t', s.draftTable? t.id (t.json s) = some t' ∧ t'.stored s false = t.stored s false := by
  match t with
  | .mk id fields =>
    cases sound with
    | mk known ordered typed each =>
      have read := Draft.rereadEach valid unscoped id fields each finite.each typed
      refine ⟨?_, TableDraft.reread_of_each valid unscoped (.mk known ordered typed each) read⟩
      obtain ⟨d, found⟩ := Option.isSome_iff_exists.mp known
      obtain ⟨_, object, _⟩ :=
        @Schema.mem_normalTable s id (Draft.jsonEach s id fields) valid d found
      rw [TableDraft.json, object]
      rfl

theorem Draft.rereadEach (valid : s.Valid) (unscoped : s.Unscoped) (id : Nat)
    (fields : List (Nat × Draft)) (sound : ∀ e ∈ fields, e.2.Sound s)
    (finite : ∀ e ∈ fields, e.2.Finite) (typed : TableArgs.Typed s id fields) :
    ∀ e ∈ fields, ∀ f, s.field? id e.1 = some f →
      (e.2.json s f.type).isNull = false ∧
        ∃ d, s.draft? f (e.2.json s f.type) = some d ∧ d.stored s false = e.2.stored s false := by
  match fields with
  | [] => simp
  | (i, d) :: rest =>
    obtain ⟨sound, sound'⟩ := List.forall_mem_cons.mp sound
    obtain ⟨finite, finite'⟩ := List.forall_mem_cons.mp finite
    obtain ⟨⟨g, field, _, hasType⟩, typed'⟩ := List.forall_mem_cons.mp typed
    refine List.forall_mem_cons.mpr
      ⟨fun f same => ?_, Draft.rereadEach valid unscoped id rest sound' finite' typed'⟩
    obtain rfl : f = g := Option.some.inj (same.symm.trans field)
    exact Draft.reread valid unscoped d sound finite hasType

theorem TableDraft.rereadEach (valid : s.Valid) (unscoped : s.Unscoped) (items : List TableDraft)
    {id : Nat} (ids : ∀ t ∈ items, t.id = id) (sound : ∀ t ∈ items, t.Sound s)
    (finite : ∀ t ∈ items, t.Finite) :
    ∃ drafts, s.draftTables? id (TableDraft.jsonEach s items) = some drafts ∧
      TableDraft.storedEach s false drafts = TableDraft.storedEach s false items := by
  match items with
  | [] => exact ⟨[], by rw [TableDraft.jsonEach, Schema.draftTables?], rfl⟩
  | t :: rest =>
    obtain ⟨sound, sound'⟩ := List.forall_mem_cons.mp sound
    obtain ⟨finite, finite'⟩ := List.forall_mem_cons.mp finite
    obtain ⟨rfl, ids'⟩ := List.forall_mem_cons.mp ids
    obtain ⟨_, t', read, same⟩ := TableDraft.reread valid unscoped t sound finite
    obtain ⟨drafts, read', same'⟩ := TableDraft.rereadEach valid unscoped rest ids' sound' finite'
    refine ⟨t' :: drafts, ?_, ?_⟩
    · rw [TableDraft.jsonEach, Schema.draftTables?, read, Option.bind_some, read', Option.map_some]
    · rw [TableDraft.storedEach, TableDraft.storedEach, same, same']

end
end

end FlatTable

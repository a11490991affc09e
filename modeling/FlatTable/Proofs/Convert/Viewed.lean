import FlatTable.Proofs.Convert.DraftFinite
import FlatTable.Proofs.View.Sound

/-! Well-formed tables as drafts: whatever bytes are accepted, there is a draft that is shown as they are. -/
namespace FlatTable
open Layout

namespace Schema
variable {s : Schema}

/-- For some fields of a table something can be chosen: the choices, by the names of the fields. -/
theorem exists_ordered (valid : s.Valid) (id : Nat) {α : Type} (choice : Nat → α → Prop) :
    ∃ fields : List (Nat × α), s.Ordered id fields ∧
      (∀ e ∈ fields, (s.field? id e.1).isSome ∧ choice e.1 e.2) ∧
        ∀ i a, (s.field? id i).isSome → choice i a → i ∈ fields.map Prod.fst := by
  classical
  obtain ⟨numbers, ascending, member⟩ : ∃ numbers : List Nat,
      (numbers.Pairwise fun i j => s.nameOf id i < s.nameOf id j) ∧
        ∀ i, i ∈ numbers ↔ (s.field? id i).isSome ∧ ∃ a, choice i a := by
    refine ⟨(s.byName id).filter fun i => ∃ a, choice i a,
      (byName_ascending valid id).sublist List.filter_sublist, fun i => ?_⟩
    rw [List.mem_filter, mem_byName, decide_eq_true_eq]
  have each : ∀ i ∈ numbers, ∃ a, choice i a := fun i here => ((member i).mp here).2
  obtain ⟨fields, same, chosen⟩ : ∃ fields : List (Nat × α), fields.map Prod.fst = numbers ∧
      ∀ e ∈ fields, choice e.1 e.2 := by
    clear ascending member
    induction numbers with
    | nil => exact ⟨[], rfl, by simp⟩
    | cons i rest ih =>
      obtain ⟨⟨a, here⟩, later⟩ := List.forall_mem_cons.mp each
      obtain ⟨fields, same, chosen⟩ := ih later
      exact ⟨(i, a) :: fields, by simp [same], List.forall_mem_cons.mpr ⟨here, chosen⟩⟩
  subst same
  refine ⟨fields, List.Pairwise.of_map Prod.fst (fun _ _ before => before) ascending,
    fun e inFields => ⟨?_, chosen e inFields⟩,
    fun i a present here => (member i).mpr ⟨present, a, here⟩⟩
  exact ((member e.1).mp (List.mem_map_of_mem inFields)).1

end Schema

structure TableDraft.Mirrors (d : TableDraft) (s : Schema) (t : TableView) (id : Nat) : Prop where
  same : d.id = id
  sound : d.Sound s
  finite : d.Finite
  shown : d.json s = s.tableJson t id

structure Draft.Mirrors (d : Draft) (s : Schema) (type : FieldType) (value : FieldValue) : Prop where
  hasType : d.HasType s type
  sound : d.Sound s
  finite : d.Finite
  shown : d.json s type = s.valueJson s.tableJson (Schema.enumOf? type) value

namespace Schema
variable {s : Schema}

/-- The members of a struct. -/
private theorem exists_members {id : Nat} {view : StructView} (struct : s.IsStruct id view)
    {d : StructDef} (known : s.structs[id]? = some d) :
    ∃ values : List Value, values.map Value.type = d.members.map Member.type ∧
      ∀ j, view.member? s j = values[j]? := by
  have same := struct.same
  subst same
  have member {j : Nat} {m : Member} (found : d.members[j]? = some m) :=
    struct.member d j m known found
  have outside {j : Nat} (past : d.members.length ≤ j) : view.member? s j = none := by
    simp [StructView.member?, known, List.getElem?_eq_none past]
  have read (j : Nat) : (readWhile (view.member? s) 0 d.members.length)[j]? = view.member? s j := by
    rw [getElem?_readWhile fun i inside => ?_, Nat.zero_add]
    · split
      · rfl
      · exact (outside (by omega)).symm
    · obtain ⟨v, here, _⟩ := member (List.getElem?_eq_getElem inside)
      rw [Nat.zero_add, here]
      rfl
  refine ⟨_, List.ext_getElem? fun j => ?_, fun j => (read j).symm⟩
  rw [List.getElem?_map, List.getElem?_map, read]
  cases found : d.members[j]? with
  | none => rw [outside (List.getElem?_eq_none_iff.mp found), Option.map_none, Option.map_none]
  | some m =>
    obtain ⟨v, here, type⟩ := member found
    rw [here, Option.map_some, Option.map_some, type]

/-- The elements of a vector of scalars or enums. -/
private theorem exists_scalars {e : ElementType} {t : ScalarType} {items : List FieldValue}
    (scalar : s.elementScalarType? e = some t) (elements : ∀ item ∈ items, s.IsElement e item) :
    ∃ values : List Value, items = values.map .scalar ∧ ∀ v ∈ values, v.type = t := by
  induction items with
  | nil => exact ⟨[], rfl, by simp⟩
  | cons item rest ih =>
    obtain ⟨here, later⟩ := List.forall_mem_cons.mp elements
    obtain ⟨values, rfl, typed⟩ := ih later
    obtain ⟨v, rfl, type⟩ : ∃ v, item = .scalar v ∧ v.type = t := by
      cases e with
      | scalar t' =>
        cases item with
        | scalar v => exact ⟨v, rfl, here.trans (Option.some.inj scalar)⟩
        | absent | string _ | vector _ | table _ _ | struct _ => cases here
      | enum id =>
        cases item with
        | scalar v => exact ⟨v, rfl, Option.some.inj (here.symm.trans scalar)⟩
        | absent | string _ | vector _ | table _ _ | struct _ => cases here
      | string | table id => cases scalar
    exact ⟨v :: values, rfl, List.forall_mem_cons.mpr ⟨type, typed⟩⟩

/-- A vector of scalars or enums is mirrored. -/
private theorem exists_scalarVector {e : ElementType} {t : ScalarType} {v : FieldVector}
    (scalar : s.elementScalarType? e = some t) (vector : s.IsVector e v)
    (finite : (FieldValue.vector v).Finite s) :
    ∃ d : Draft, d.Mirrors s (.vector e) (.vector v) := by
  obtain ⟨values, read, typed⟩ := exists_scalars scalar vector.element
  refine ⟨.scalars t values, ⟨e, rfl, scalar⟩, .scalars typed, .scalars fun value member => ?_, ?_⟩
  · have inItems : FieldValue.scalar value ∈ v.items := by
      rw [read]
      exact List.mem_map_of_mem member
    obtain ⟨j, found⟩ := List.mem_iff_getElem?.mp inItems
    exact finite j value (by rw [vector.get, found])
  · rw [Draft.json, valueJson, read, List.map_map]
    rfl

private theorem exists_texts {items : List FieldValue}
    (elements : ∀ item ∈ items, s.IsElement .string item) :
    ∃ texts : List String, items = texts.map .string := by
  induction items with
  | nil => exact ⟨[], rfl⟩
  | cons item rest ih =>
    obtain ⟨here, later⟩ := List.forall_mem_cons.mp elements
    obtain ⟨texts, rfl⟩ := ih later
    cases item with
    | string text => exact ⟨text :: texts, rfl⟩
    | absent | scalar _ | vector _ | table _ _ | struct _ => cases here

/-- The tables of a vector are mirrored when each of them is. -/
private theorem exists_tables {id : Nat} {items : List FieldValue}
    (elements : ∀ item ∈ items, s.IsElement (.table id) item)
    (below : ∀ t, .table t id ∈ items → ∃ d : TableDraft, d.Mirrors s t id) :
    ∃ drafts : List TableDraft, (∀ d ∈ drafts, d.id = id ∧ d.Sound s ∧ d.Finite) ∧
      drafts.map (TableDraft.json s) = items.map (s.itemJson s.tableJson none) := by
  induction items with
  | nil => exact ⟨[], by simp, rfl⟩
  | cons item rest ih =>
    obtain ⟨here, later⟩ := List.forall_mem_cons.mp elements
    obtain ⟨drafts, each, shown⟩ := ih later fun t member => below t (List.mem_cons_of_mem _ member)
    cases item with
    | table t found =>
      obtain rfl : found = id := here
      obtain ⟨d, mirrors⟩ := below t List.mem_cons_self
      refine ⟨d :: drafts, List.forall_mem_cons.mpr
        ⟨⟨mirrors.same, mirrors.sound, mirrors.finite⟩, each⟩, ?_⟩
      rw [List.map_cons, List.map_cons, shown, mirrors.shown]
      rfl
    | absent | string _ | vector _ | scalar _ | struct _ => cases here

/-- A value of a field's type is mirrored when the tables that it leads to are. -/
theorem exists_mirror {type : FieldType} {value : FieldValue} (resolves : s.Resolves type)
    (isValue : s.IsValue type value) (finite : value.Finite s)
    (table : ∀ t id, value = .table t id → ∃ d : TableDraft, d.Mirrors s t id)
    (element : ∀ v j t id, value = .vector v → v.get? j = some (.table t id) →
      ∃ d : TableDraft, d.Mirrors s t id) : ∃ d : Draft, d.Mirrors s type value := by
  match type, value, isValue with
  | .scalar t, .scalar v, same =>
    exact ⟨.scalar v, congrArg some same.symm, .scalar, .scalar finite, by rw [Draft.json]; rfl⟩
  | .enum id, .scalar v, same =>
    exact ⟨.scalar v, same, .scalar, .scalar finite, by rw [Draft.json]; rfl⟩
  | .string, .string text, _ => exact ⟨.string text, rfl, .string, .string, by rw [Draft.json]; rfl⟩
  | .table id, .table t found, same =>
    obtain rfl : found = id := same
    obtain ⟨d, mirrors⟩ := table t found rfl
    exact ⟨.table d, congrArg FieldType.table mirrors.same.symm, .table mirrors.sound,
      .table mirrors.finite, by rw [Draft.json, mirrors.shown]; rfl⟩
  | .struct id, .struct view, struct =>
    have inRange : id < s.structs.size := resolves .struct id rfl
    have known := Array.getElem?_eq_getElem inRange
    obtain ⟨values, types, members⟩ := exists_members struct known
    have same := struct.same
    subst same
    refine ⟨.struct values, ⟨_, known, types⟩, .struct, .struct fun v member => ?_, ?_⟩
    · obtain ⟨j, found⟩ := List.mem_iff_getElem?.mp member
      exact finite j v (by rw [members, found])
    · rw [Draft.json, TableArgs.structOf?, known, Option.map_some, Option.getD_some]
      exact (Schema.structJson_eq known members).symm
  | .vector e, .vector v, vector =>
    have shown : s.valueJson s.tableJson (enumOf? (.vector e)) (.vector v) =
        .array (v.items.map (s.itemJson s.tableJson (enumOf? (.vector e)))) := rfl
    cases e with
    | scalar t => exact exists_scalarVector rfl vector finite
    | enum id =>
      obtain ⟨t, underlying⟩ := Schema.Resolves.underlying
        (show s.Resolves (.enum id) from resolves)
      exact exists_scalarVector underlying vector finite
    | string =>
      obtain ⟨texts, read⟩ := exists_texts vector.element
      refine ⟨.strings texts, rfl, .strings, .strings, ?_⟩
      rw [shown, read, Draft.json, List.map_map]
      rfl
    | table id =>
      obtain ⟨drafts, each, same⟩ := exists_tables vector.element fun t member => by
        obtain ⟨j, found⟩ := List.mem_iff_getElem?.mp member
        exact element v j t id rfl (by rw [vector.get, found])
      refine ⟨.tables drafts, ⟨id, rfl, fun d member => (each d member).1⟩,
        .tables fun d member => (each d member).2.1, .tables fun d member => (each d member).2.2, ?_⟩
      rw [Draft.json, TableDraft.jsonEach_eq, shown, same]
      rfl

end Schema

/-- Of a well-formed table everything that is stored, and of the tables below it, is mirrored. -/
theorem Walk.WellFormed.exists_mirror {w : Walk} (valid : w.schema.Valid) {position id : Nat}
    (wellFormed : w.WellFormed position id)
    (finite : w.schema.FloatsFinite ⟨w.buffer, position⟩ id) :
    ∃ d : TableDraft, d.Mirrors w.schema ⟨w.buffer, position⟩ id := by
  induction wellFormed with
  | @intro position id tableAt nested below =>
    have reached {t : TableView} {id' : Nat} (same : t.buffer = w.buffer)
        (member : (t.position, id') ∈ w.buffer.nested w.schema position id)
        (finite : w.schema.FloatsFinite t id') : ∃ d : TableDraft, d.Mirrors w.schema t id' := by
      obtain ⟨buffer, place⟩ := t
      obtain rfl : buffer = w.buffer := same
      exact below (place, id') member finite
    -- The draft asks for the fields that are stored and may still be used.
    obtain ⟨fields, ordered, chosen, all⟩ := Schema.exists_ordered valid id
      fun i (d : Draft) => ∃ f, w.schema.field? id i = some f ∧ f.deprecated = false ∧
        (w.buffer.fieldPosition? position i).isSome ∧
          d.Mirrors w.schema f.type (TableView.field ⟨w.buffer, position⟩ w.schema id i)
    have known : (w.schema.tables[id]?).isSome := by
      rw [Array.getElem?_eq_getElem tableAt.1]
      rfl
    have typed : TableArgs.Typed w.schema id fields := by
      intro e member
      obtain ⟨_, f, field, live, _, mirrors⟩ := chosen e member
      exact ⟨f, field, live, mirrors.hasType⟩
    refine ⟨.mk id fields, rfl, .mk known ordered typed fun e member => ?_,
      .mk fun e member => ?_, ?_⟩
    · obtain ⟨_, _, _, _, _, mirrors⟩ := chosen e member
      exact mirrors.sound
    · obtain ⟨_, _, _, _, _, mirrors⟩ := chosen e member
      exact mirrors.finite
    · refine (Schema.tableJson_eq_json valid known ordered typed (fun e member f field live => ?_)
        fun i f field live other => ?_).symm
      · obtain ⟨_, g, field', _, stored, mirrors⟩ := chosen e member
        obtain rfl : f = g := Option.some.inj (field.symm.trans field')
        refine ⟨fun absent => ?_, mirrors.shown.symm⟩
        obtain ⟨holder, place⟩ := Option.isSome_iff_exists.mp stored
        have isValue := tableAt.isValue valid field live place
        rw [absent] at isValue
        cases type : f.type <;> rw [type] at isValue <;> exact isValue
      · cases place : w.buffer.fieldPosition? position i with
        | none => exact TableView.field_of_missing valid field live place
        | some holder =>
          have stored : (w.buffer.fieldPosition? position i).isSome := by rw [place]; rfl
          obtain ⟨d, mirrors⟩ := Schema.exists_mirror (valid.field field).1
            (tableAt.isValue valid field live place) (finite.here i stored)
            (fun t id' read => by
              obtain ⟨same, member⟩ := TableView.nested_of_field read
              exact reached same member (finite.reached (.field .root read)))
            fun v j t id' read get => by
              obtain ⟨same, member⟩ := TableView.nested_of_element read get
              exact reached same member (finite.reached (.element .root read get))
          exact absurd (all i d (by rw [field]; rfl) ⟨f, field, live, stored, mirrors⟩) other

end FlatTable

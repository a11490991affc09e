import FlatTable.Proofs.Convert.ReadAs

/-! What the tables of a finished buffer are rendered as, by the drafts that they were built from. -/
namespace FlatTable
open Layout Build Builder

/-! ### What drafts are rendered as -/

def Schema.typeAt (s : Schema) (id i : Nat) : FieldType :=
  ((s.field? id i).map FieldDef.type).getD .string

mutual

def Draft.json (s : Schema) (type : FieldType) : Draft → Json
  | .scalar v => s.scalarJson (Schema.enumOf? type) v
  | .struct values => ((TableArgs.structOf? s type).map fun d => d.json s values).getD .null
  | .string text => .string text
  | .scalars _ items => .array (items.map (s.scalarJson (Schema.enumOf? type)))
  | .strings texts => .array (texts.map .string)
  | .table t => t.json s
  | .tables items => .array (TableDraft.jsonEach s items)

def TableDraft.json (s : Schema) : TableDraft → Json
  | .mk id fields => s.normalTable id (Draft.jsonEach s id fields)

def Draft.jsonEach (s : Schema) (id : Nat) : List (Nat × Draft) → List (String × Json)
  | [] => []
  | (i, d) :: rest => (s.nameOf id i, d.json s (s.typeAt id i)) :: Draft.jsonEach s id rest

def TableDraft.jsonEach (s : Schema) : List TableDraft → List Json
  | [] => []
  | t :: rest => t.json s :: TableDraft.jsonEach s rest

end

section
variable {s : Schema} {id i : Nat} {fields : List (Nat × Draft)} {f : FieldDef} {d : Draft}

theorem Schema.typeAt_eq (field : s.field? id i = some f) : s.typeAt id i = f.type := by
  rw [typeAt, field, Option.map_some, Option.getD_some]

theorem TableDraft.jsonEach_eq (items : List TableDraft) :
    TableDraft.jsonEach s items = items.map (TableDraft.json s) := by
  induction items with
  | nil => rw [TableDraft.jsonEach, List.map_nil]
  | cons t rest ih => rw [TableDraft.jsonEach, ih, List.map_cons]

theorem Draft.jsonEach_eq (fields : List (Nat × Draft)) :
    Draft.jsonEach s id fields =
      fields.map fun e => (s.nameOf id e.1, e.2.json s (s.typeAt id e.1)) := by
  induction fields with
  | nil => rw [Draft.jsonEach, List.map_nil]
  | cons e rest ih =>
    obtain ⟨i, d⟩ := e
    rw [Draft.jsonEach, ih, List.map_cons]

/-- The member of a field that is asked for. -/
theorem Draft.member?_jsonEach (ordered : s.Ordered id fields) (field : s.field? id i = some f)
    (member : (i, d) ∈ fields) :
    Json.member? f.name (Draft.jsonEach s id fields) = some (d.json s f.type) := by
  rw [Draft.jsonEach_eq, Json.member?_eq_some_iff]
  · exact List.mem_map.mpr ⟨_, member, by rw [Schema.nameOf_eq field, Schema.typeAt_eq field]⟩
  · rw [List.map_map]
    refine List.pairwise_map.mpr (ordered.imp ?_)
    intro e later before same
    simp only [Function.comp_apply] at same
    rw [same] at before
    exact absurd before (String.lt_irrefl _)

/-- There is no member for a field that is not asked for. -/
theorem Draft.member?_jsonEach_eq_none (valid : s.Valid) (typed : TableArgs.Typed s id fields)
    (field : s.field? id i = some f) (other : i ∉ fields.map Prod.fst) :
    Json.member? f.name (Draft.jsonEach s id fields) = none := by
  rw [Draft.jsonEach_eq, ← Option.not_isSome_iff_eq_none, Json.isSome_member?, List.map_map]
  intro named
  obtain ⟨e, member, same⟩ := List.mem_map.mp named
  obtain ⟨g, field', _⟩ := typed e member
  simp only [Function.comp_apply, Schema.nameOf_eq field'] at same
  exact other (List.mem_map.mpr ⟨e, member, valid.number_unique field' field same⟩)

/-- A table is rendered as the draft whose fields it is rendered with, if it has no others. -/
theorem Schema.tableJson_eq_json (valid : s.Valid) (known : (s.tables[id]?).isSome)
    (ordered : s.Ordered id fields) (typed : TableArgs.Typed s id fields) {t : TableView}
    (set : ∀ e ∈ fields, ∀ f, s.field? id e.1 = some f → f.deprecated = false →
      t.field s id e.1 ≠ .absent ∧
        s.valueJson s.tableJson (enumOf? f.type) (t.field s id e.1) = e.2.json s f.type)
    (unset : ∀ i f, s.field? id i = some f → f.deprecated = false → i ∉ fields.map Prod.fst →
      t.field s id i = ((s.fieldDefault? id i).map .scalar).getD .absent) :
    s.tableJson t id = (TableDraft.mk id fields).json s := by
  obtain ⟨d, found⟩ := Option.isSome_iff_exists.mp known
  rw [Schema.tableJson_eq, TableDraft.json, Schema.normalTable, found, Schema.membersJson_eq found]
  refine congrArg Json.ofMembers (List.filterMap_congr ?_)
  intro entry member
  obtain ⟨f, i⟩ := entry
  have field := (Schema.mem_zipIdx_fields found).mp member
  rw [Schema.normalMember?]
  dsimp only
  split
  · rename_i deprecated
    have absent : t.field s id i = .absent := by
      simp only [TableView.field, field, deprecated, if_true]
    rw [Schema.memberJson?, absent]
  · rename_i live
    rw [Bool.not_eq_true] at live
    by_cases asked : i ∈ fields.map Prod.fst
    · obtain ⟨⟨j, d⟩, inFields, rfl⟩ := List.mem_map.mp asked
      obtain ⟨present, rendered⟩ := set _ inFields f field live
      rw [Draft.member?_jsonEach ordered field inFields]
      exact Schema.memberJson?_eq_some_iff.mpr ⟨present, by dsimp only; rw [rendered]⟩
    · rw [Draft.member?_jsonEach_eq_none valid typed field asked, Schema.memberJson?,
        unset i f field live asked]
      cases s.fieldDefault? id i <;> rfl

end

/-! ### What is stored of a draft can be built -/

section
variable {s : Schema} {forced : Bool}

theorem Schema.Ordered.storedEach {id : Nat} {fields : List (Nat × Draft)}
    (ordered : s.Ordered id fields) : s.Ordered id (Draft.storedEach s forced id fields) := by
  induction fields with
  | nil =>
    rw [Draft.storedEach]
    exact .nil
  | cons e rest ih =>
    obtain ⟨i, d⟩ := e
    obtain ⟨first, tail⟩ := List.pairwise_cons.mp ordered
    rw [Draft.storedEach]
    split
    · exact ih tail
    · refine List.pairwise_cons.mpr ⟨fun later member => ?_, ih tail⟩
      obtain ⟨d', asked, _⟩ := Draft.mem_storedEach.mp member
      exact first (later.1, d') asked

mutual

theorem Draft.Sound.stored {d : Draft} (sound : d.Sound s) : (d.stored s forced).Sound s := by
  match d, sound with
  | _, .scalar => rw [Draft.stored]; exact .scalar
  | _, .struct => rw [Draft.stored]; exact .struct
  | _, .string => rw [Draft.stored]; exact .string
  | _, .scalars typed => rw [Draft.stored]; exact .scalars typed
  | _, .strings => rw [Draft.stored]; exact .strings
  | _, .table table =>
    rw [Draft.stored]
    exact .table (TableDraft.Sound.stored table)
  | _, .tables each =>
    rw [Draft.stored, TableDraft.storedEach_eq]
    refine .tables fun t member => ?_
    obtain ⟨t', asked, rfl⟩ := List.mem_map.mp member
    exact TableDraft.Sound.stored (each t' asked)

theorem TableDraft.Sound.stored {t : TableDraft} (sound : t.Sound s) :
    (t.stored s forced).Sound s := by
  match t, sound with
  | _, .mk known ordered typed each =>
    rw [TableDraft.stored]
    refine .mk known ordered.storedEach (TableArgs.Typed.storedEach typed) fun e member => ?_
    obtain ⟨d, asked, _, same⟩ := Draft.mem_storedEach.mp member
    rw [same]
    exact Draft.Sound.stored (each _ asked)

end
end

/-! ### Rendering -/

namespace Builder
variable {s : Schema} {h : History} {b : Builder}

mutual

/-- A field is rendered as the draft that it holds. -/
theorem rendered_of_readAs (valid : s.Valid) (built : b.Built s h) (complete : b.Complete h) (d : Draft)
    {type : FieldType} {value : FieldValue} (sound : d.Sound s) (hasType : d.HasType s type)
    (reads : d.ReadAs s b h type value) :
    value ≠ .absent ∧ s.valueJson s.tableJson (Schema.enumOf? type) value = d.json s type := by
  match d, reads, sound with
  | _, .scalar v, _ =>
    rw [Draft.json]
    exact ⟨by simp, rfl⟩
  | _, @Draft.ReadAs.struct _ _ _ _ values view declared members, _ =>
    obtain ⟨d, struct, _⟩ := hasType
    have isStruct : s.structs[view.id]? = some d := by
      rw [declared] at struct
      exact struct
    rw [Draft.json, struct, Option.map_some, Option.getD_some]
    exact ⟨by simp, Schema.structJson_eq isStruct members⟩
  | _, .string text, _ =>
    rw [Draft.json]
    exact ⟨by simp, rfl⟩
  | _, .scalars length elements, _ =>
    rw [Draft.json, Schema.valueJson, elements, List.map_map]
    exact ⟨by simp, rfl⟩
  | _, .strings length elements, _ =>
    rw [Draft.json, Schema.valueJson, elements, List.map_map]
    exact ⟨by simp, rfl⟩
  | _, @Draft.ReadAs.table _ _ _ _ t rev made, .table sound =>
    rw [Draft.json]
    exact ⟨by simp, tableJson_of_made valid built complete t sound made⟩
  | _, @Draft.ReadAs.tables _ _ _ _ items refs v id declared made length elements, .tables each =>
    rw [Draft.json, Schema.valueJson, elements, List.map_map, TableDraft.jsonEach_eq]
    refine ⟨by simp, congrArg Json.array (List.ext_get (by simp [made.length_eq]) fun j inside inside' => ?_)⟩
    simp only [List.length_map] at inside inside'
    have member := List.getElem_mem inside'
    simp only [List.get_eq_getElem, List.getElem_map, Function.comp_apply, Schema.itemJson]
    have shown := tableJson_of_made valid built complete _ (each _ member) (made.get inside inside')
    rwa [declared _ member] at shown

/-- A table is rendered as the draft that it was built from. -/
theorem tableJson_of_made (valid : s.Valid) (built : b.Built s h) (complete : b.Complete h)
    (t : TableDraft) {rev : Nat} (sound : t.Sound s) (made : t.Made h rev) :
    s.tableJson ⟨b.finished.data, b.positionOf rev⟩ t.id = t.json s := by
  match t, made, sound with
  | _, @TableDraft.Made.mk _ _ _ fields a object table set made only,
    .mk known ordered typed each =>
    subst table
    refine Schema.tableJson_eq_json valid known ordered typed (fun e member f field live => ?_)
      fun i f field live other => ?_
    · obtain ⟨x, isSet⟩ := set e member
      obtain ⟨g, field', _, hasType⟩ := typed e member
      obtain rfl : f = g := Option.some.inj (field.symm.trans field')
      exact rendered_of_readAs valid built complete e.2 (each e member) hasType
        (readAs_of_made valid built complete (made e member x isSet) hasType object field live isSet)
    · exact built.field_of_unset valid object field live fun x isSet => other (only i x isSet)

end

end Builder
end FlatTable

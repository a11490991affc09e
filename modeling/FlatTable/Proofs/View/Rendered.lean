import Mathlib.Data.List.Nodup
import FlatTable.Convert.Render
import FlatTable.Proofs.View.Readable

/-! Tables as JSON: no table is cut off by the levels that the rendering allows, an object has one
key for each field that is not absent, and a rendering holds no more tables than a walk meets. -/
namespace FlatTable
open Layout

namespace Json

def keys : Json → List String
  | object members => members.map Prod.fst
  | _ => []

private theorem keepLast_of_nodup {members : List (String × Json)}
    (distinct : (members.map Prod.fst).Nodup) : keepLast members = members := by
  induction members with
  | nil => rfl
  | cons m rest ih =>
    obtain ⟨new, tail⟩ := List.nodup_cons.mp distinct
    cases rest with
    | nil => rfl
    | cons n rest =>
      have different : m.1 ≠ n.1 := fun same => new (by rw [same]; exact List.mem_cons_self)
      rw [keepLast, if_neg different, ih tail]

/-- Members with different names all stay. -/
theorem ofMembers_of_nodup {members : List (String × Json)}
    (distinct : (members.map Prod.fst).Nodup) :
    ∃ sorted, ofMembers members = .object sorted ∧ sorted.Perm members := by
  have sorted := List.mergeSort_perm members fun m n => !decide (n.1 < m.1)
  refine ⟨_, ?_, sorted⟩
  rw [ofMembers, keepLast_of_nodup ((sorted.map Prod.fst).nodup_iff.mpr distinct)]

/-- Members that are sorted by name stay as they are. -/
theorem ofMembers_of_sorted {members : List (String × Json)}
    (sorted : (members.map Prod.fst).Pairwise (· < ·)) : ofMembers members = .object members := by
  have distinct : (members.map Prod.fst).Nodup := sorted.imp String.ne_of_lt
  have inOrder : members.Pairwise fun m n => !decide (n.1 < m.1) :=
    (List.pairwise_map.mp sorted).imp fun before => by simpa using String.lt_asymm before
  rw [ofMembers, List.mergeSort_of_pairwise inOrder, keepLast_of_nodup distinct]

end Json

namespace Schema
variable {s : Schema}

def memberJson? (s : Schema) (tableJson : TableView → Nat → Json) (t : TableView)
    (id : Nat) (field : FieldDef × Nat) : Option (String × Json) :=
  match t.field s id field.2 with
  | .absent => none
  | value => some (field.1.name, s.valueJson tableJson (enumOf? field.1.type) value)

theorem memberJson?_eq_some_iff {tableJson : TableView → Nat → Json} {t : TableView}
    {id : Nat} {field : FieldDef × Nat} {member : String × Json} :
    s.memberJson? tableJson t id field = some member ↔
      t.field s id field.2 ≠ .absent ∧ member = (field.1.name,
        s.valueJson tableJson (enumOf? field.1.type) (t.field s id field.2)) := by
  unfold memberJson?
  cases t.field s id field.2 <;> simp [eq_comm]

theorem membersJson_eq {tableJson : TableView → Nat → Json} {t : TableView} {id : Nat}
    {d : TableDef} (found : s.tables[id]? = some d) :
    s.membersJson tableJson t id =
      Json.ofMembers (d.fields.toList.zipIdx.filterMap (s.memberJson? tableJson t id)) := by
  unfold membersJson
  rw [found]
  rfl

/-! ### Levels -/

/-- The rendering of a table asks only for tables behind it in the same buffer. -/
theorem membersJson_congr {f g : TableView → Nat → Json} {t : TableView} {id : Nat}
    (same : ∀ t' id', t'.buffer = t.buffer → t.position < t'.position →
      t'.position < t.buffer.size → f t' id' = g t' id') :
    s.membersJson f t id = s.membersJson g t id := by
  have table {t' : TableView} {id' : Nat}
      (below : t'.buffer = t.buffer ∧ (t'.position, id') ∈ t.buffer.nested s t.position id) :
      f t' id' = g t' id' := by
    obtain ⟨behind, inside⟩ := Buffer.lt_of_mem_nested below.2
    exact same t' id' below.1 behind inside
  have value (i : Nat) (enum : Option Nat) :
      s.valueJson f enum (t.field s id i) = s.valueJson g enum (t.field s id i) := by
    cases read : t.field s id i with
    | table t' id' => exact table (TableView.nested_of_field read)
    | vector v =>
      refine congrArg Json.array (List.map_congr_left ?_)
      intro item member
      obtain ⟨j, _, get⟩ := mem_readWhile member
      cases item with
      | table t' id' => exact table (TableView.nested_of_element read get)
      | absent | scalar _ | string _ | vector _ | struct _ => rfl
    | absent | scalar _ | string _ | struct _ => rfl
  cases found : s.tables[id]? with
  | none => simp only [membersJson, found]
  | some d =>
    rw [membersJson_eq found, membersJson_eq found]
    refine congrArg Json.ofMembers (List.filterMap_congr ?_)
    intro field _
    have rendered := value field.2 (enumOf? field.1.type)
    unfold memberJson?
    cases read : t.field s id field.2 <;> simp only [read] at rendered ⊢ <;> rw [rendered]

/-- Any two numbers of levels agree from the number of bytes behind the table on. -/
theorem tableJsonWithin_eq {fuel fuel' : Nat} {t : TableView} {id : Nat}
    (enough : t.buffer.size - t.position < fuel) (enough' : t.buffer.size - t.position < fuel') :
    s.tableJsonWithin fuel t id = s.tableJsonWithin fuel' t id := by
  induction fuel generalizing fuel' t id with
  | zero => omega
  | succ fuel ih =>
    cases fuel' with
    | zero => omega
    | succ fuel' =>
      apply membersJson_congr
      intro t' id' same behind inside
      rw [← same] at enough enough' inside
      exact ih (by omega) (by omega)

/-- No table is cut off: the tables below a table are rendered as it is. -/
theorem tableJson_eq (t : TableView) (id : Nat) :
    s.tableJson t id = s.membersJson s.tableJson t id := by
  apply membersJson_congr
  intro t' id' same behind inside
  rw [← same] at inside ⊢
  exact tableJsonWithin_eq (by omega) (by omega)

/-! ### Keys -/

private theorem names_filterMap {α : Type} {member? : α → Option (String × Json)}
    {name : α → String} (named : ∀ x m, member? x = some m → m.1 = name x) (l : List α) :
    ((l.filterMap member?).map Prod.fst).Sublist (l.map name) := by
  induction l with
  | nil => exact List.Sublist.refl _
  | cons x l ih =>
    cases member : member? x with
    | none =>
      rw [List.filterMap_cons_none member]
      exact ih.cons _
    | some m =>
      rw [List.filterMap_cons_some member, List.map_cons, List.map_cons, named x m member]
      exact ih.cons_cons _

/-- Members that are named for the fields of a table in a valid schema are kept. -/
theorem ofMembers_perm (valid : s.Valid) {id : Nat} {d : TableDef}
    (found : s.tables[id]? = some d) {member? : FieldDef × Nat → Option (String × Json)}
    (named : ∀ field m, member? field = some m → m.1 = field.1.name) :
    ∃ members, Json.ofMembers (d.fields.toList.zipIdx.filterMap member?) = .object members ∧
      members.Perm (d.fields.toList.zipIdx.filterMap member?) ∧
      (members.map Prod.fst).Nodup := by
  have names : d.fields.toList.zipIdx.map (fun field => field.1.name) =
      d.fields.toList.map FieldDef.name := by
    calc
      _ = (d.fields.toList.zipIdx.map Prod.fst).map FieldDef.name := by rw [List.map_map]; rfl
      _ = _ := by rw [List.zipIdx_map_fst]
  have distinct := (valid.table found).distinct
  rw [← names] at distinct
  have kept := distinct.sublist (names_filterMap named _)
  obtain ⟨members, object, perm⟩ := Json.ofMembers_of_nodup kept
  exact ⟨members, object, perm, (perm.map Prod.fst).nodup_iff.mpr kept⟩

/-- The members of a table in a valid schema are kept. -/
theorem membersJson_perm (valid : s.Valid) (tableJson : TableView → Nat → Json)
    (t : TableView) {id : Nat} {d : TableDef} (found : s.tables[id]? = some d) :
    ∃ members, s.membersJson tableJson t id = .object members ∧
      members.Perm (d.fields.toList.zipIdx.filterMap (s.memberJson? tableJson t id)) ∧
      (members.map Prod.fst).Nodup := by
  rw [membersJson_eq found]
  exact ofMembers_perm valid found fun _ _ member => by rw [(memberJson?_eq_some_iff.mp member).2]

/-- A rendered table has exactly one key for each field that does not read as absent. -/
theorem keys_tableJson (valid : s.Valid) (t : TableView) (id : Nat) :
    (s.tableJson t id).keys.Nodup ∧ ∀ name, name ∈ (s.tableJson t id).keys ↔
      ∃ i f, s.field? id i = some f ∧ f.name = name ∧ t.field s id i ≠ .absent := by
  rw [tableJson_eq]
  cases found : s.tables[id]? with
  | none =>
    simp [membersJson, found, Json.keys, field?]
  | some d =>
    obtain ⟨members, object, perm, distinct⟩ := membersJson_perm valid s.tableJson t found
    refine ⟨by rw [object]; exact distinct, ?_⟩
    intro name
    rw [object, Json.keys, (perm.map Prod.fst).mem_iff, List.mem_map]
    simp only [List.mem_filterMap, memberJson?_eq_some_iff]
    constructor
    · intro h
      obtain ⟨_, ⟨⟨f, i⟩, field, present, rfl⟩, rfl⟩ := h
      exact ⟨i, f, (mem_zipIdx_fields found).mp field, rfl, present⟩
    · intro given
      obtain ⟨i, f, field, rfl, present⟩ := given
      exact ⟨_, ⟨(f, i), (mem_zipIdx_fields found).mpr field, present, rfl⟩, rfl⟩

/-! ### Tables -/

def typeOf? (s : Schema) (id : Nat) (name : String) : Option FieldType :=
  s.tables[id]?.bind fun d => (d.fields.toList.find? fun f => f.name == name).map FieldDef.type

mutual

/-- The number of a rendered value of this type: of a table one more than those of its members
together, of a vector of tables those of its items together, and zero of what holds no tables. -/
def tablesIn (s : Schema) (c : Tally) (type : FieldType) : Json → Nat
  | .object members =>
    match type with
    | .table id => 1 + s.tablesInMembers c id members
    | _ => 0
  | .array items =>
    match type with
    | .vector (.table id) => s.tablesInItems c id items
    | _ => 0
  | _ => 0

def tablesInItems (s : Schema) (c : Tally) (id : Nat) : List Json → Nat
  | [] => 0
  | j :: js => c.join (s.tablesIn c (.table id) j) (s.tablesInItems c id js)

def tablesInMembers (s : Schema) (c : Tally) (id : Nat) : List (String × Json) → Nat
  | [] => 0
  | (name, j) :: members =>
    c.join (s.tablesIn c ((s.typeOf? id name).getD .string) j) (s.tablesInMembers c id members)

end

theorem tablesInItems_eq (c : Tally) (id : Nat) (items : List Json) :
    s.tablesInItems c id items = c.all (items.map (s.tablesIn c (.table id))) := by
  induction items with
  | nil => rw [tablesInItems, List.map_nil, Tally.all_nil]
  | cons j js ih => rw [tablesInItems, ih, List.map_cons, Tally.all_cons]

theorem tablesInMembers_eq (c : Tally) (id : Nat) (members : List (String × Json)) :
    s.tablesInMembers c id members =
      c.all (members.map fun m => s.tablesIn c ((s.typeOf? id m.1).getD .string) m.2) := by
  induction members with
  | nil => rw [tablesInMembers, List.map_nil, Tally.all_nil]
  | cons m members ih => rw [tablesInMembers, ih, List.map_cons, Tally.all_cons]

/-- The name of a field leads to its type. -/
theorem typeOf?_name (valid : s.Valid) {id i : Nat} {f : FieldDef}
    (h : s.field? id i = some f) : s.typeOf? id f.name = some f.type := by
  obtain ⟨d, isTable, isField⟩ := Option.bind_eq_some_iff.mp h
  have member : f ∈ d.fields.toList := Array.mem_toList_iff.mpr (Array.mem_of_getElem? isField)
  have isSome : (d.fields.toList.find? fun g => g.name == f.name).isSome :=
    List.find?_isSome.mpr ⟨f, member, beq_self_eq_true _⟩
  obtain ⟨g, found⟩ := Option.isSome_iff_exists.mp isSome
  have named : (g.name == f.name) = true :=
    List.find?_some (p := fun g : FieldDef => g.name == f.name) found
  have same : g = f := List.inj_on_of_nodup_map (valid.table isTable).distinct
    (List.mem_of_find?_eq_some found) member (beq_iff_eq.mp named)
  rw [typeOf?, isTable, Option.bind_some, found, same, Option.map_some]

private theorem tablesIn_toJson (c : Tally) (type : FieldType) (v : Value) :
    s.tablesIn c type v.toJson = 0 := by
  unfold Value.toJson
  cases v.type.format? with
  | some f => dsimp only; split <;> simp only [tablesIn]
  | none => dsimp only; split <;> simp only [tablesIn]

private theorem tablesIn_scalarJson (c : Tally) (type : FieldType) (enum : Option Nat)
    (v : Value) : s.tablesIn c type (s.scalarJson enum v) = 0 := by
  unfold scalarJson
  cases (enum.bind fun id => s.enums[id]?).bind fun e => v.asLong?.bind e.nameOf? with
  | some name => simp only [tablesIn]
  | none => exact tablesIn_toJson c type v

private theorem tablesIn_structJson (c : Tally) (id : Nat) (v : StructView) :
    s.tablesIn c (.struct id) (s.structJson v) = 0 := by
  unfold structJson
  cases s.structs[v.id]? <;> simp only [tablesIn, Json.ofMembers]

section
variable {c : Tally} {tableJson : TableView → Nat → Json} {t : TableView} {id i : Nat}

/-- Reading stops where something is missing, so it finds no more than is there. -/
private theorem all_readWhile_le {α β : Type} {read : Nat → Option α} {read' : Nat → Option β}
    {g : α → Nat} {g' : β → Nat} {start count : Nat}
    (h : ∀ i < start + count, ∀ a, read i = some a → ∃ a', read' i = some a' ∧ g a ≤ g' a') :
    c.all ((readWhile read start count).map g) ≤
      c.all (((List.range' start count).filterMap read').map g') := by
  induction count generalizing start with
  | zero => exact Nat.le_refl _
  | succ count ih =>
    rw [readWhile, List.range'_succ]
    split
    · rename_i a found
      obtain ⟨a', found', le⟩ := h start (by omega) a found
      rw [List.filterMap_cons_some found', List.map_cons, List.map_cons]
      exact c.mono le (ih fun i inside => h i (by omega))
    · exact Nat.zero_le _

/-- The items read from a vector of tables are among the tables referred to. -/
private theorem tablesIn_items_le {start length target : Nat} {b : Buffer}
    (below : ∀ t' : TableView, t'.buffer = b →
      s.tablesIn c (.table target) (tableJson t' target) ≤ b.tally c s t'.position target) :
    c.all (((FieldVector.items ⟨b, start, length, .table target, none⟩).map
        (s.itemJson tableJson none)).map (s.tablesIn c (.table target))) ≤
      c.all ((b.tablesAt target ((List.range length).map fun i => start + i * offsetSize)).map
        fun n => b.tally c s n.1 n.2) := by
  rw [FieldVector.items, List.map_map, Buffer.tablesAt, List.filterMap_map, List.range_eq_range']
  apply all_readWhile_le
  intro i inside value get
  rw [FieldVector.get?, if_pos (by omega)] at get
  obtain ⟨t', table, rfl⟩ := Option.map_eq_some_iff.mp get
  have same : t'.buffer = b := (Buffer.table?_eq_some_iff.mp table).2.2
  exact ⟨(t'.position, target), by rw [Function.comp_apply, table, Option.map_some], below t' same⟩

/-- A rendered field holds no more tables than the field refers to. -/
private theorem tablesIn_valueJson_le {f : FieldDef} (h : s.field? id i = some f)
    (below : ∀ t' id', t'.buffer = t.buffer →
      s.tablesIn c (.table id') (tableJson t' id') ≤ t.buffer.tally c s t'.position id') :
    s.tablesIn c f.type (s.valueJson tableJson (enumOf? f.type) (t.field s id i)) ≤
      c.all ((((t.buffer.fieldPosition? t.position i).map (t.buffer.nestedAt f.type)).getD []).map
        fun n => t.buffer.tally c s n.1 n.2) := by
  cases read : t.field s id i with
  | absent | string _ =>
    simp only [valueJson, itemJson, tablesIn]
    exact Nat.zero_le _
  | scalar v =>
    exact Nat.le_trans (Nat.le_of_eq (tablesIn_scalarJson c _ _ v)) (Nat.zero_le _)
  | struct v =>
    obtain ⟨f', _, struct, _, same, _, type, _⟩ := TableView.exists_struct read
    obtain rfl : f = f' := Option.some.inj (h.symm.trans same)
    rw [type]
    exact Nat.le_trans (Nat.le_of_eq (tablesIn_structJson c struct v)) (Nat.zero_le _)
  | table t' id' =>
    obtain ⟨f', holder, same, type, place, table⟩ := TableView.exists_table read
    obtain rfl : f = f' := Option.some.inj (h.symm.trans same)
    have sameBuffer := (Buffer.table?_eq_some_iff.mp table).2.2
    rw [type, place, Option.map_some, Option.getD_some, Buffer.nestedAt, Buffer.tablesAt,
      List.filterMap_cons_some (by rw [table]; rfl)]
    exact Nat.le_trans (below t' id' sameBuffer) (Nat.le_of_eq (by simp [c.comm, c.zero_join]))
  | vector v =>
    obtain ⟨f', holder, target, element, same, type, place, refers, vector⟩ :=
      TableView.exists_vector read
    obtain rfl : f = f' := Option.some.inj (h.symm.trans same)
    rw [valueJson, type, place, Option.map_some, Option.getD_some]
    cases element with
    | table id' =>
      obtain ⟨length, counted, inside, rfl⟩ := FieldVector.at?_eq_some_iff.mp vector
      have holders : t.buffer.elementHolders holder = (List.range length).map fun i =>
          target + offsetSize + i * offsetSize := by
        simp only [Buffer.elementHolders, refers, counted, Option.getD_some]
      rw [tablesIn, tablesInItems_eq, Buffer.nestedAt, holders]
      exact tablesIn_items_le fun t' same => below t' id' same
    | scalar t | enum id | string =>
      simp only [tablesIn]
      exact Nat.zero_le _

end

/-- A rendering holds no more tables, and nests them no deeper, than a walk from the table. -/
theorem tablesIn_tableJsonWithin_le (valid : s.Valid) (c : Tally) (fuel : Nat) (t : TableView)
    (id : Nat) :
    s.tablesIn c (.table id) (s.tableJsonWithin fuel t id) ≤
      t.buffer.tally c s t.position id := by
  induction fuel generalizing t id with
  | zero =>
    rw [tableJsonWithin, tablesIn, tablesInMembers, Buffer.tally_eq]
    exact Nat.le_add_right 1 _
  | succ fuel ih =>
    rw [tableJsonWithin, Buffer.tally_eq]
    cases found : s.tables[id]? with
    | none =>
      simp only [membersJson, found, tablesIn, tablesInMembers]
      exact Nat.le_add_right 1 _
    | some d =>
      obtain ⟨members, object, perm, _⟩ := membersJson_perm valid
        (s.tableJsonWithin fuel) t found
      rw [object, tablesIn, tablesInMembers_eq, c.all_perm (perm.map _)]
      refine Nat.add_le_add_left ?_ 1
      simp only [Buffer.nested, found, List.map_flatMap, Tally.all_flatMap]
      apply c.all_filterMap_le
      intro h field _ member
      obtain ⟨f, i⟩ := h
      obtain ⟨_, rfl⟩ := memberJson?_eq_some_iff.mp member
      have isField := (mem_zipIdx_fields found).mp field
      rw [typeOf?_name valid isField, Option.getD_some]
      exact tablesIn_valueJson_le isField fun t' id' same => same ▸ ih t' id'

end Schema
end FlatTable

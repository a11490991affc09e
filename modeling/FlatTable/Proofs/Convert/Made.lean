import FlatTable.Proofs.Builder.Firm
import FlatTable.Proofs.Convert.Draft

/-! Building what JSON stands for: it succeeds unless there is no room, and what is built holds what was
asked for, but for the defaults that are left out. -/
namespace FlatTable
open Layout Build Builder

/-! ### Drafts that can be built -/

def Schema.nameOf (s : Schema) (id i : Nat) : String := ((s.field? id i).map FieldDef.name).getD ""

def Schema.Ordered {α : Type} (s : Schema) (id : Nat) (fields : List (Nat × α)) : Prop :=
  fields.Pairwise fun e later => s.nameOf id e.1 < s.nameOf id later.1

def Schema.byName (s : Schema) (id : Nat) : List Nat :=
  (List.range ((s.tables[id]?.map fun t => t.fields.size).getD 0)).mergeSort
    fun i j => s.nameOf id i ≤ s.nameOf id j

namespace Schema
variable {s : Schema} {id i : Nat}

theorem nameOf_eq {f : FieldDef} (field : s.field? id i = some f) : s.nameOf id i = f.name := by
  rw [nameOf, field, Option.map_some, Option.getD_some]

theorem Ordered.nodup {α : Type} {fields : List (Nat × α)} (ordered : s.Ordered id fields) :
    (fields.map Prod.fst).Nodup := by
  refine List.pairwise_map.mpr (ordered.imp ?_)
  intro e later before same
  rw [same] at before
  exact absurd before (String.lt_irrefl _)

theorem mem_byName : i ∈ s.byName id ↔ (s.field? id i).isSome := by
  rw [byName, (List.mergeSort_perm _ _).mem_iff, List.mem_range, field?]
  cases s.tables[id]? <;> simp

theorem byName_ascending (valid : s.Valid) (id : Nat) :
    (s.byName id).Pairwise fun i j => s.nameOf id i < s.nameOf id j := by
  have ascending : (s.byName id).Pairwise fun i j => s.nameOf id i ≤ s.nameOf id j := by
    refine (List.pairwise_mergeSort ?_ ?_ _).imp of_decide_eq_true
    · intro i j k first second
      exact decide_eq_true (String.le_trans (of_decide_eq_true first) (of_decide_eq_true second))
    · intro i j
      simpa using String.le_total _ _
  have distinct : (s.byName id).Nodup := (List.mergeSort_perm _ _).nodup_iff.mpr List.nodup_range
  refine (ascending.and distinct).imp_of_mem ?_
  intro i j here there order
  obtain ⟨f, field⟩ := Option.isSome_iff_exists.mp (mem_byName.mp here)
  obtain ⟨g, field'⟩ := Option.isSome_iff_exists.mp (mem_byName.mp there)
  rw [← String.not_le]
  intro back
  have same := String.le_antisymm order.1 back
  rw [nameOf_eq field, nameOf_eq field'] at same
  exact order.2 (valid.number_unique field field' same)

end Schema

namespace Schema
variable {s : Schema} {type : FieldType}

theorem accepts_string_iff : s.accepts type .string ↔ type = .string := by
  cases type with
  | vector e => cases e <;> simp [accepts]
  | scalar t | enum id | string | table id | struct id => simp [accepts]

theorem accepts_table_iff : s.accepts type .table ↔ ∃ id, type = .table id := by
  cases type with
  | vector e => cases e <;> simp [accepts]
  | scalar t | enum id | string | table id | struct id => simp [accepts]

theorem accepts_scalars_iff {t : ScalarType} : s.accepts type (.vector (.scalar t)) ↔
    ∃ e, type = .vector e ∧ s.elementScalarType? e = some t := by
  cases type with
  | vector e => cases e <;> simp [accepts]
  | scalar t | enum id | string | table id | struct id => simp [accepts]

theorem accepts_strings_iff : s.accepts type (.vector .string) ↔ type = .vector .string := by
  cases type with
  | vector e => cases e <;> simp [accepts]
  | scalar t | enum id | string | table id | struct id => simp [accepts]

theorem accepts_tables_iff :
    s.accepts type (.vector .table) ↔ ∃ id, type = .vector (.table id) := by
  cases type with
  | vector e => cases e <;> simp [accepts]
  | scalar t | enum id | string | table id | struct id => simp [accepts]

end Schema

def Draft.HasType (s : Schema) (type : FieldType) : Draft → Prop
  | .scalar v => s.scalarType? type = some v.type
  | .struct values => ∃ d, TableArgs.structOf? s type = some d ∧
      values.map Value.type = d.members.map Member.type
  | .string _ => type = .string
  | .scalars t _ => ∃ e, type = .vector e ∧ s.elementScalarType? e = some t
  | .strings _ => type = .vector .string
  | .table t => type = .table t.id
  | .tables items => ∃ id, type = .vector (.table id) ∧ ∀ t ∈ items, t.id = id

instance (s : Schema) (type : FieldType) : (d : Draft) → Decidable (d.HasType s type)
  | .scalar v => inferInstanceAs (Decidable (s.scalarType? type = some v.type))
  | .struct values =>
    decidable_of_iff (∃ d ∈ TableArgs.structOf? s type,
      values.map Value.type = d.members.map Member.type) Iff.rfl
  | .string _ => inferInstanceAs (Decidable (type = .string))
  | .scalars t _ =>
    match type with
    | .vector e => decidable_of_iff (s.elementScalarType? e = some t)
        ⟨fun scalar => ⟨e, rfl, scalar⟩, fun ⟨_, same, scalar⟩ => by cases same; exact scalar⟩
    | .scalar _ | .enum _ | .string | .table _ | .struct _ => .isFalse nofun
  | .strings _ => inferInstanceAs (Decidable (type = .vector .string))
  | .table t => inferInstanceAs (Decidable (type = .table t.id))
  | .tables items =>
    match type with
    | .vector (.table id) => decidable_of_iff (∀ t ∈ items, t.id = id)
        ⟨fun all => ⟨id, rfl, all⟩, fun ⟨_, same, all⟩ => by cases same; exact all⟩
    | .vector (.scalar _) | .vector (.enum _) | .vector .string | .scalar _ | .enum _ | .string
    | .table _ | .struct _ => .isFalse nofun

def Draft.tableIds : Draft → List Nat
  | .table t => [t.id]
  | .tables items => items.map TableDraft.id
  | .scalar _ | .struct _ | .string _ | .scalars _ _ | .strings _ => []

mutual

inductive Draft.Sound (s : Schema) : Draft → Prop where
  | scalar {v : Value} : Draft.Sound s (.scalar v)
  | struct {values : List Value} : Draft.Sound s (.struct values)
  | string {text : String} : Draft.Sound s (.string text)
  | scalars {t : ScalarType} {items : List Value} (typed : ∀ v ∈ items, v.type = t) :
      Draft.Sound s (.scalars t items)
  | strings {texts : List String} : Draft.Sound s (.strings texts)
  | table {t : TableDraft} (table : t.Sound s) : Draft.Sound s (.table t)
  | tables {items : List TableDraft} (each : ∀ t ∈ items, t.Sound s) : Draft.Sound s (.tables items)

/-- A table that can be built: each field is set once, to what it can hold. -/
inductive TableDraft.Sound (s : Schema) : TableDraft → Prop where
  | mk {id : Nat} {fields : List (Nat × Draft)} (known : (s.tables[id]?).isSome)
      (ordered : s.Ordered id fields)
      (typed : ∀ e ∈ fields, ∃ f, s.field? id e.1 = some f ∧ f.deprecated = false ∧
        e.2.HasType s f.type)
      (each : ∀ e ∈ fields, e.2.Sound s) : TableDraft.Sound s (.mk id fields)

end

/-- A table that can be built, whatever the order of its fields: each is set once, to what it can
hold. -/
inductive TableDraft.Settable (s : Schema) : TableDraft → Prop where
  | mk {id : Nat} {fields : List (Nat × Draft)} (known : (s.tables[id]?).isSome)
      (distinct : (fields.map Prod.fst).Nodup)
      (typed : ∀ e ∈ fields, ∃ f, s.field? id e.1 = some f ∧ f.deprecated = false ∧
        e.2.HasType s f.type)
      (each : ∀ e ∈ fields, e.2.Sound s) : TableDraft.Settable s (.mk id fields)

theorem TableDraft.Sound.settable {s : Schema} {t : TableDraft} (sound : t.Sound s) :
    t.Settable s := by
  obtain ⟨known, ordered, typed, each⟩ := sound
  exact ⟨known, ordered.nodup, typed, each⟩

/-! ### What is stored of them -/

def Draft.omitted (s : Schema) (id i : Nat) : Draft → Bool
  | .scalar v => isDefault s id i v
  | _ => false

mutual

def Draft.stored (s : Schema) (forced : Bool) : Draft → Draft
  | .table t => .table (t.stored s forced)
  | .tables items => .tables (TableDraft.storedEach s forced items)
  | .scalar v => .scalar v
  | .struct values => .struct values
  | .string text => .string text
  | .scalars t items => .scalars t items
  | .strings texts => .strings texts

def TableDraft.stored (s : Schema) (forced : Bool) : TableDraft → TableDraft
  | .mk id fields => .mk id (Draft.storedEach s forced id fields)

def Draft.storedEach (s : Schema) (forced : Bool) (id : Nat) :
    List (Nat × Draft) → List (Nat × Draft)
  | [] => []
  | (i, d) :: rest =>
    if !forced && d.omitted s id i then Draft.storedEach s forced id rest
    else (i, d.stored s forced) :: Draft.storedEach s forced id rest

def TableDraft.storedEach (s : Schema) (forced : Bool) : List TableDraft → List TableDraft
  | [] => []
  | t :: rest => t.stored s forced :: TableDraft.storedEach s forced rest

end

section
variable {s : Schema} {forced : Bool}

theorem TableDraft.storedEach_eq (items : List TableDraft) :
    TableDraft.storedEach s forced items = items.map (·.stored s forced) := by
  induction items with
  | nil => rw [TableDraft.storedEach, List.map_nil]
  | cons t rest ih => rw [TableDraft.storedEach, ih, List.map_cons]

@[simp] theorem TableDraft.id_stored (t : TableDraft) : (t.stored s forced).id = t.id := by
  obtain ⟨id, fields⟩ := t
  rw [TableDraft.stored, TableDraft.id, TableDraft.id]

theorem Draft.omitted_stored (d : Draft) (forced : Bool) (id i : Nat) :
    (d.stored s forced).omitted s id i = d.omitted s id i := by
  cases d <;> rw [Draft.stored] <;> rfl

def Draft.kept (s : Schema) (forced : Bool) (id : Nat) (fields : List (Nat × Draft)) :
    List (Nat × Draft) :=
  fields.filter fun e => !(!forced && e.2.omitted s id e.1)

theorem Draft.mem_kept {id : Nat} {fields : List (Nat × Draft)} {e : Nat × Draft} :
    e ∈ Draft.kept s forced id fields ↔
      e ∈ fields ∧ (!forced && e.2.omitted s id e.1) = false := by
  rw [Draft.kept, List.mem_filter, Bool.not_eq_true']

theorem Draft.storedEach_eq_kept (id : Nat) (fields : List (Nat × Draft)) :
    Draft.storedEach s forced id fields =
      Draft.kept s forced id (fields.map fun e => (e.1, e.2.stored s forced)) := by
  induction fields with
  | nil => rw [Draft.storedEach]; rfl
  | cons e rest ih =>
    obtain ⟨i, d⟩ := e
    rw [Draft.storedEach, ih, Draft.kept, Draft.kept, List.map_cons, List.filter_cons]
    simp only [Draft.omitted_stored]
    cases !forced && d.omitted s id i <;> rfl

/-- The fields of a table that are stored. -/
theorem Draft.mem_storedEach {id : Nat} {fields : List (Nat × Draft)} {e : Nat × Draft} :
    e ∈ Draft.storedEach s forced id fields ↔
      ∃ d, (e.1, d) ∈ fields ∧ (!forced && d.omitted s id e.1) = false ∧
        e.2 = d.stored s forced := by
  obtain ⟨i, d⟩ := e
  rw [Draft.storedEach_eq_kept, Draft.mem_kept, List.mem_map]
  constructor
  · rintro ⟨⟨⟨j, d'⟩, asked, same⟩, stays⟩
    obtain ⟨rfl, rfl⟩ := Prod.mk.inj same
    exact ⟨d', asked, by rwa [Draft.omitted_stored] at stays, rfl⟩
  · rintro ⟨d', asked, stays, rfl⟩
    exact ⟨⟨(i, d'), asked, rfl⟩, by rwa [Draft.omitted_stored]⟩

theorem Draft.hasType_stored {type : FieldType} {d : Draft} (h : d.HasType s type) :
    (d.stored s forced).HasType s type := by
  cases d with
  | table t =>
    rw [Draft.stored, Draft.HasType, TableDraft.id_stored]
    exact h
  | tables items =>
    obtain ⟨id, isVector, same⟩ := h
    refine ⟨id, isVector, fun t member => ?_⟩
    rw [TableDraft.storedEach_eq] at member
    obtain ⟨t', inItems, rfl⟩ := List.mem_map.mp member
    rw [TableDraft.id_stored]
    exact same t' inItems
  | scalar v | struct values | string text | scalars t items | strings texts =>
    rw [Draft.stored]
    exact h

end

/-! ### Drafts that have been built -/

mutual

/-- A setting that holds what was asked for, in objects that have been created. -/
inductive Draft.Made (h : History) : Draft → Setting → Prop where
  | scalar {v : Value} : Draft.Made h (.scalar v) (.scalar v)
  | struct {values : List Value} : Draft.Made h (.struct values) (.struct values)
  | string {p : Placed} {text : String} (object : ⟨p.rev, .string text⟩ ∈ h)
      (kind : p.kind = .string) : Draft.Made h (.string text) (.reference p)
  | scalars {p : Placed} {t : ScalarType} {items : List Value}
      (object : ⟨p.rev, .scalars t items⟩ ∈ h) (kind : p.kind = .vector (.scalar t)) :
      Draft.Made h (.scalars t items) (.reference p)
  | strings {p : Placed} {refs : List (Ref .string)} {texts : List String}
      (object : ⟨p.rev, .strings refs⟩ ∈ h) (kind : p.kind = .vector .string)
      (elements : refs.Forall₂ (fun r text => ⟨r.rev, .string text⟩ ∈ h) texts) :
      Draft.Made h (.strings texts) (.reference p)
  | table {p : Placed} {t : TableDraft} (kind : p.kind = .table) (table : t.Made h p.rev) :
      Draft.Made h (.table t) (.reference p)
  | tables {p : Placed} {refs : List (Ref .table)} {items : List TableDraft}
      (object : ⟨p.rev, .tables refs⟩ ∈ h) (kind : p.kind = .vector .table)
      (length : refs.length = items.length)
      (elements : ∀ (i : Nat) r t, refs[i]? = some r → items[i]? = some t → t.Made h r.rev) :
      Draft.Made h (.tables items) (.reference p)

/-- A table that was created here holds what was asked for, and nothing else. -/
inductive TableDraft.Made (h : History) : TableDraft → Nat → Prop where
  | mk {rev id : Nat} {fields : List (Nat × Draft)} {a : TableArgs}
      (object : ⟨rev, .table a⟩ ∈ h) (table : a.table = id)
      (set : ∀ e ∈ fields, ∃ x, a.settings[e.1]? = some (some x))
      (made : ∀ e ∈ fields, ∀ x, a.settings[e.1]? = some (some x) → e.2.Made h x)
      (only : ∀ (i : Nat) x, a.settings[i]? = some (some x) → i ∈ fields.map Prod.fst) :
      TableDraft.Made h (.mk id fields) rev

end

mutual

theorem Draft.Made.mono {h h' : History} {d : Draft} {x : Setting} (made : d.Made h x)
    (sub : h ⊆ h') : d.Made h' x := by
  match d, x, made with
  | _, _, .scalar => exact .scalar
  | _, _, .struct => exact .struct
  | _, _, .string object kind => exact .string (sub object) kind
  | _, _, .scalars object kind => exact .scalars (sub object) kind
  | _, _, .strings object kind elements =>
    exact .strings (sub object) kind (elements.imp fun _ _ known => sub known)
  | _, _, .table kind table => exact .table kind (TableDraft.Made.mono table sub)
  | _, _, .tables object kind length elements =>
    exact .tables (sub object) kind length fun i r t ref item =>
      TableDraft.Made.mono (elements i r t ref item) sub

theorem TableDraft.Made.mono {h h' : History} {t : TableDraft} {rev : Nat} (made : t.Made h rev)
    (sub : h ⊆ h') : t.Made h' rev := by
  match t, rev, made with
  | _, _, .mk object table set made only =>
    exact .mk (sub object) table set
      (fun e member x found => Draft.Made.mono (made e member x found) sub) only

end

theorem TableDraft.Made.known {h : History} {t : TableDraft} {rev : Nat} (made : t.Made h rev) :
    ∃ a, ⟨rev, .table a⟩ ∈ h ∧ a.table = t.id := by
  obtain ⟨object, table⟩ := made
  exact ⟨_, object, table⟩

namespace Draft.Made
variable {s : Schema} {h : History} {d : Draft} {x : Setting} {type : FieldType}

/-- What a setting refers to has been created. -/
theorem known {p : Placed} (made : d.Made h (.reference p)) :
    ∃ c, ⟨p.rev, c⟩ ∈ h ∧ c.kind = p.kind := by
  cases made with
  | string object kind | scalars object kind | strings object kind | tables object kind =>
    exact ⟨_, object, kind.symm⟩
  | table kind table =>
    obtain ⟨a, object, _⟩ := TableDraft.Made.known table
    exact ⟨_, object, kind.symm⟩

theorem fits (made : d.Made h x) (hasType : d.HasType s type) : x.Fits s type := by
  cases made with
  | scalar | struct => exact hasType
  | string object kind | strings object kind =>
    obtain rfl : type = _ := hasType
    simp [Setting.Fits, Schema.accepts, kind]
  | scalars object kind =>
    obtain ⟨e, rfl, scalar⟩ := hasType
    cases e with
    | scalar t | enum id => simp [Setting.Fits, Schema.accepts, kind, scalar]
    | string | table id => cases scalar
  | table kind table =>
    obtain rfl : type = _ := hasType
    simp [Setting.Fits, Schema.accepts, kind]
  | tables object kind =>
    obtain ⟨id, rfl, _⟩ := hasType
    simp [Setting.Fits, Schema.accepts, kind]

/-- A field that can hold the setting can be set to the draft, if it is declared for the tables in it. -/
theorem hasType (made : d.Made h x) (fits : x.Fits s type)
    (declared : ∀ id ∈ type.tables?, ∀ found ∈ d.tableIds, found = id) : d.HasType s type := by
  cases made with
  | scalar | struct => exact fits
  | string object kind =>
    rw [Setting.Fits, kind] at fits
    exact Schema.accepts_string_iff.mp fits
  | scalars object kind =>
    rw [Setting.Fits, kind] at fits
    exact Schema.accepts_scalars_iff.mp fits
  | strings object kind elements =>
    rw [Setting.Fits, kind] at fits
    exact Schema.accepts_strings_iff.mp fits
  | @table p t kind made =>
    rw [Setting.Fits, kind] at fits
    obtain ⟨id, rfl⟩ := Schema.accepts_table_iff.mp fits
    exact congrArg FieldType.table (declared id rfl t.id List.mem_cons_self).symm
  | tables object kind length elements =>
    rw [Setting.Fits, kind] at fits
    obtain ⟨id, rfl⟩ := Schema.accepts_tables_iff.mp fits
    exact ⟨id, rfl, fun t member => declared id rfl t.id (List.mem_map_of_mem member)⟩

/-- The tables that a setting refers to are what its field is declared for. -/
theorem typed (made : d.Made h x) (hasType : d.HasType s type) (grounded : h.Grounded) {id r : Nat}
    (tables : type.tables? = some id) (found : r ∈ h.tablesOf (some x)) :
    h.tableAt? r = some id := by
  have content {rev : Nat} {c : Content} (known : ⟨rev, c⟩ ∈ h) : h.content? rev = some c :=
    grounded.content?_eq_some_iff.mpr known
  cases made with
  | scalar | struct => cases found
  | string object | scalars object | strings object =>
    rw [History.tablesOf, content object] at found
    cases found
  | table kind table =>
    obtain rfl : type = _ := hasType
    obtain rfl := Option.some.inj tables
    obtain ⟨a, object, same⟩ := TableDraft.Made.known table
    rw [History.tablesOf, content object] at found
    obtain rfl := List.mem_singleton.mp found
    exact grounded.tableAt?_eq_some_iff.mpr ⟨a, object, same⟩
  | tables object kind length elements =>
    obtain ⟨id, rfl, same⟩ := hasType
    obtain rfl := Option.some.inj tables
    rw [History.tablesOf, content object] at found
    obtain ⟨ref, member, rfl⟩ := List.mem_map.mp found
    obtain ⟨i, isRef⟩ := List.mem_iff_getElem?.mp member
    have inside := (List.getElem?_eq_some_iff.mp isRef).1
    have item := List.getElem?_eq_getElem (length ▸ inside)
    obtain ⟨a, isTable, table⟩ := TableDraft.Made.known (elements i ref _ isRef item)
    exact grounded.tableAt?_eq_some_iff.mpr
      ⟨a, isTable, table.trans (same _ (List.mem_of_getElem? item))⟩

end Draft.Made

/-! ### Building -/

structure TableArgs.Holds (s : Schema) (h : History) (id : Nat) (fields : List (Nat × Draft))
    (a : TableArgs) : Prop where
  schema : a.schema = s
  table : a.table = id
  size : ∃ t, s.tables[id]? = some t ∧ a.settings.size = t.fields.size
  made : ∀ e ∈ fields, ∃ x, a.settings[e.1]? = some (some x) ∧ e.2.Made h x
  only : ∀ (i : Nat) x, a.settings[i]? = some (some x) → i ∈ fields.map Prod.fst

namespace TableArgs
variable {s : Schema} {h h' : History} {id i : Nat} {fields : List (Nat × Draft)} {a : TableArgs}
  {x : Setting}

theorem Holds.mono (holds : a.Holds s h id fields) (sub : h ⊆ h') : a.Holds s h' id fields where
  schema := holds.schema
  table := holds.table
  size := holds.size
  made e member := by
    obtain ⟨x, set, made⟩ := holds.made e member
    exact ⟨x, set, made.mono sub⟩
  only := holds.only

theorem blank_holds (h : History) (known : (s.tables[id]?).isSome) :
    (blank s id).Holds s h id [] := by
  obtain ⟨t, found⟩ := Option.isSome_iff_exists.mp known
  refine ⟨rfl, rfl, ⟨t, found, by simp [blank, found]⟩, by simp, fun i x set => ?_⟩
  simp [blank, Array.getElem?_replicate] at set

/-- One more field. -/
theorem Holds.set (holds : a.Holds s h id fields) {f : FieldDef} (field : s.field? id i = some f)
    {d : Draft} (made : d.Made h x) (new : i ∉ fields.map Prod.fst) :
    (a.set i x).Holds s h id (fields ++ [(i, d)]) := by
  obtain ⟨t, known, size⟩ := holds.size
  have inside : i < a.settings.size := by
    rw [Schema.field?, known, Option.bind_some] at field
    rw [size]
    exact (Array.getElem?_eq_some_iff.mp field).1
  refine ⟨holds.schema, holds.table, ⟨t, known, by simp [TableArgs.set, size]⟩, fun e member => ?_,
    fun j y set => ?_⟩
  · rcases List.mem_append.mp member with before | here
    · have other : i ≠ e.1 := fun same => new (same ▸ List.mem_map_of_mem before)
      simpa [TableArgs.set, Array.getElem?_setIfInBounds, other] using holds.made e before
    · obtain rfl := List.mem_singleton.mp here
      exact ⟨x, by simp [TableArgs.set, inside], made⟩
  · rw [List.map_append, List.mem_append]
    by_cases same : i = j
    · exact .inr (by simp [same])
    · simp only [TableArgs.set, Array.getElem?_setIfInBounds, if_neg same] at set
      exact .inl (holds.only j y set)

def Typed (s : Schema) (id : Nat) (fields : List (Nat × Draft)) : Prop :=
  ∀ e ∈ fields, ∃ f, s.field? id e.1 = some f ∧ f.deprecated = false ∧ e.2.HasType s f.type

/-- Fields can be set to what is stored of drafts that they can be set to. -/
theorem Typed.stored {forced : Bool} (typed : Typed s id fields) :
    Typed s id (fields.map fun e => (e.1, e.2.stored s forced)) := by
  intro e member
  obtain ⟨⟨i, d⟩, asked, rfl⟩ := List.mem_map.mp member
  obtain ⟨f, field, live, hasType⟩ := typed _ asked
  exact ⟨f, field, live, Draft.hasType_stored hasType⟩

theorem Typed.storedEach {forced : Bool} (typed : Typed s id fields) :
    Typed s id (Draft.storedEach s forced id fields) := by
  rw [Draft.storedEach_eq_kept]
  exact fun e member => typed.stored e (Draft.mem_kept.mp member).1

section
variable (holds : a.Holds s h id fields) (typed : Typed s id fields)
include holds

/-- What has been set was asked for. -/
theorem Holds.exists_draft (set : a.settings[i]? = some (some x)) :
    ∃ d, (i, d) ∈ fields ∧ d.Made h x := by
  obtain ⟨⟨j, d⟩, member, rfl⟩ := List.mem_map.mp (holds.only i x set)
  obtain ⟨y, set', made⟩ := holds.made _ member
  obtain rfl : x = y := by simpa [set] using set'
  exact ⟨d, member, made⟩

/-- A setting is left out if its draft is. -/
private theorem Holds.kept_iff {forced : Bool} {d : Draft} (made : d.Made h x) :
    (forced = false → ¬ Omitted a i x) ↔ (!forced && d.omitted s id i) = false := by
  rw [← TableArgs.omits_iff, holds.schema, holds.table]
  cases made <;> cases forced <;> simp [TableArgs.omits, Draft.omitted]

/-- What is stored of the arguments is what is stored of the drafts. -/
theorem Holds.stored_iff (forced : Bool) :
    (∃ x, (a.stored forced).settings[i]? = some (some x)) ↔
      i ∈ (Draft.kept s forced id fields).map Prod.fst := by
  constructor
  · rintro ⟨x, set⟩
    obtain ⟨set, stays⟩ := TableArgs.stored_eq_some_iff.mp set
    obtain ⟨d, asked, made⟩ := holds.exists_draft set
    exact List.mem_map.mpr ⟨(i, d), Draft.mem_kept.mpr ⟨asked, (holds.kept_iff made).mp stays⟩, rfl⟩
  · intro member
    obtain ⟨⟨i, d⟩, kept, rfl⟩ := List.mem_map.mp member
    obtain ⟨asked, stays⟩ := Draft.mem_kept.mp kept
    obtain ⟨x, set, made⟩ := holds.made _ asked
    exact ⟨x, TableArgs.stored_eq_some_iff.mpr ⟨set, (holds.kept_iff made).mpr stays⟩⟩

/-- What is stored of the arguments holds those of the drafts that are stored. -/
theorem Holds.made_kept {forced : Bool} {rev : Nat} (object : ⟨rev, .table (a.stored forced)⟩ ∈ h) :
    (TableDraft.mk id (Draft.kept s forced id fields)).Made h rev := by
  refine .mk object (by rw [TableArgs.stored_table, holds.table])
    (fun e member => (holds.stored_iff forced).mpr (List.mem_map_of_mem member)) (fun e member x set => ?_)
    fun i x set => (holds.stored_iff forced).mp ⟨x, set⟩
  obtain ⟨y, set', made⟩ := holds.made e (Draft.mem_kept.mp member).1
  obtain rfl : x = y := by simpa [(TableArgs.stored_eq_some_iff.mp set).1] using set'
  exact made

/-- What is stored of the arguments holds what is stored of the drafts. -/
theorem Holds.stored {forced : Bool} {drafts : List (Nat × Draft)}
    (same : fields = drafts.map fun e => (e.1, e.2.stored s forced)) {rev : Nat}
    (object : ⟨rev, .table (a.stored forced)⟩ ∈ h) :
    ((TableDraft.mk id drafts).stored s forced).Made h rev := by
  rw [TableDraft.stored, Draft.storedEach_eq_kept, ← same]
  exact holds.made_kept object

include typed

theorem Holds.fits : a.Fits s := by
  refine ⟨holds.schema, by rw [holds.table]; exact holds.size, fun i x set => ?_⟩
  obtain ⟨d, member, made⟩ := holds.exists_draft set
  obtain ⟨f, field, live, hasType⟩ := typed _ member
  exact ⟨f, by rw [holds.table, field], live, made.fits hasType⟩

end
end TableArgs

/-- Fields that are still to be set are not among those that have been. -/
theorem Draft.apart_of_set {i : Nat} {d : Draft} {rest done : List (Nat × Draft)}
    (new : i ∉ rest.map Prod.fst) (apart : ∀ e ∈ rest, e.1 ∉ done.map Prod.fst) :
    ∀ e ∈ rest, e.1 ∉ (done ++ [(i, d)]).map Prod.fst := by
  intro e member again
  rw [List.map_append, List.mem_append] at again
  rcases again with before | same
  · exact apart e member before
  · simp only [List.map_cons, List.map_nil, List.mem_singleton] at same
    exact new (List.mem_map.mpr ⟨e, member, same⟩)

namespace Construction
variable {s : Schema} {x : Construction}

/-- A table whose arguments hold what can be held. -/
theorem Firm.createTable_of_holds (firm : x.Firm s) (valid : s.Valid) {a : TableArgs} {id : Nat}
    {fields : List (Nat × Draft)} (holds : a.Holds s x.history id fields)
    (typed : TableArgs.Typed s id fields) :
    x.Builds s (Builder.createTable a) fun r y =>
      ⟨r.rev, .table (a.stored x.builder.forceDefaults)⟩ ∈ y.history := by
  refine firm.createTable valid (holds.fits typed) (fun i p set => ?_)
    fun i f p field set nested tables r found => ?_
  · obtain ⟨d, _, made⟩ := holds.exists_draft set
    exact made.known
  · obtain ⟨d, member, made⟩ := holds.exists_draft set
    obtain ⟨g, field', _, hasType⟩ := typed _ member
    rw [holds.table] at field
    obtain rfl : f = g := Option.some.inj (field.symm.trans field')
    exact made.typed hasType firm.grounded tables found

theorem strings_builds (firm : x.Firm s) (texts : List String) :
    x.Builds s (texts.mapM Builder.createString) fun refs y =>
      refs.Forall₂ (fun r text => ⟨r.rev, .string text⟩ ∈ y.history) texts := by
  induction texts generalizing x with
  | nil => exact .of_pure firm .nil
  | cons text texts ih =>
    rw [List.mapM_cons]
    refine (firm.createString text).bind fun r y continues object => ?_
    refine (ih continues.firm).bind fun refs z continues' elements => ?_
    exact .of_pure continues'.firm (.cons (continues'.history object) elements)

mutual

/-- What a draft asks for is placed. -/
theorem setting_builds (valid : s.Valid) (d : Draft) {x : Construction} (firm : x.Firm s)
    (sound : d.Sound s) :
    x.Builds s (d.setting s) fun set y =>
      (d.stored s x.builder.forceDefaults).Made y.history set := by
  match d with
  | .scalar v =>
    rw [Draft.setting, Draft.stored]
    exact .of_pure firm .scalar
  | .struct values =>
    rw [Draft.setting, Draft.stored]
    exact .of_pure firm .struct
  | .string text =>
    rw [Draft.setting, Draft.stored]
    exact (firm.createString text).bind fun r y continues object =>
      .of_pure continues.firm (.string object rfl)
  | .scalars t items =>
    rw [Draft.setting, Draft.stored]
    cases sound with
    | scalars typed =>
      exact (firm.createVector typed).bind fun r y continues object =>
        .of_pure continues.firm (.scalars object rfl)
  | .strings texts =>
    rw [Draft.setting, Draft.stored]
    refine (strings_builds firm texts).bind fun refs y continues elements => ?_
    refine (continues.firm.createStringVector fun r member => ?_).bind fun r z continues' object => ?_
    · obtain ⟨i, rfl⟩ := List.mem_iff_get.mp member
      exact ⟨_, elements.get i.isLt (elements.length_eq ▸ i.isLt)⟩
    · exact .of_pure continues'.firm
        (.strings object rfl (elements.imp fun _ _ known => continues'.history known))
  | .table t =>
    rw [Draft.setting, Draft.stored]
    cases sound with
    | table sound =>
      exact (build_builds valid t firm sound.settable).bind fun r y continues made =>
        .of_pure continues.firm (.table rfl made)
  | .tables items =>
    rw [Draft.setting, Draft.stored]
    cases sound with
    | tables each =>
      refine (buildEach_builds valid items firm each).bind fun refs y continues given => ?_
      obtain ⟨length, made⟩ := given
      refine (continues.firm.createTableVector fun r member => ?_).bind
        fun r z continues' object => ?_
      · obtain ⟨i, isRef⟩ := List.mem_iff_getElem?.mp member
        have inside := (List.getElem?_eq_some_iff.mp isRef).1
        obtain ⟨a, isTable, _⟩ := TableDraft.Made.known
          (made i r _ isRef (List.getElem?_eq_getElem (length ▸ inside)))
        exact ⟨a, isTable⟩
      · exact .of_pure continues'.firm (.tables object rfl length
          fun i r t isRef item => (made i r t isRef item).mono continues'.history)

/-- A table is built, with what is stored of its draft. -/
theorem build_builds (valid : s.Valid) (t : TableDraft) {x : Construction} (firm : x.Firm s)
    (settable : t.Settable s) :
    x.Builds s (t.build s) fun r y =>
      (t.stored s x.builder.forceDefaults).Made y.history r.rev := by
  match t with
  | .mk id fields =>
    cases settable with
    | mk known distinct typed each =>
      rw [TableDraft.build]
      refine (setEach_builds valid fields firm distinct typed each
        (TableArgs.blank_holds x.history known) (by simp)).bind fun a y continues holds => ?_
      rw [List.nil_append] at holds
      refine (continues.firm.createTable_of_holds valid holds (TableArgs.Typed.stored typed)).mono
        fun r z continues' object => ?_
      rw [continues.follows.forceDefaults] at object
      exact (holds.mono continues'.history).stored rfl object

/-- Fields are set one after the other. -/
theorem setEach_builds (valid : s.Valid) (fields : List (Nat × Draft)) {x : Construction}
    (firm : x.Firm s) {id : Nat} (distinct : (fields.map Prod.fst).Nodup)
    (typed : TableArgs.Typed s id fields) (each : ∀ e ∈ fields, e.2.Sound s)
    {done : List (Nat × Draft)} {a : TableArgs} (holds : a.Holds s x.history id done)
    (apart : ∀ e ∈ fields, e.1 ∉ done.map Prod.fst) :
    x.Builds s (Draft.setEach s fields a) fun a' y => a'.Holds s y.history id
      (done ++ fields.map fun e => (e.1, e.2.stored s x.builder.forceDefaults)) := by
  match fields with
  | [] =>
    rw [Draft.setEach]
    exact .of_pure firm (by simpa using holds)
  | (i, d) :: rest =>
    obtain ⟨⟨f, field, _⟩, typed⟩ := List.forall_mem_cons.mp typed
    obtain ⟨sound, each⟩ := List.forall_mem_cons.mp each
    obtain ⟨here, apart⟩ := List.forall_mem_cons.mp apart
    obtain ⟨new, distinct⟩ := List.nodup_cons.mp distinct
    rw [Draft.setEach]
    refine (setting_builds valid d firm sound).bind fun set y continues made => ?_
    have next := setEach_builds valid rest continues.firm distinct typed each
      ((holds.mono continues.history).set field made here) (Draft.apart_of_set new apart)
    refine next.mono fun a' z _ holds => ?_
    rw [continues.follows.forceDefaults, List.append_assoc] at holds
    exact holds

theorem buildEach_builds (valid : s.Valid) (items : List TableDraft) {x : Construction}
    (firm : x.Firm s) (each : ∀ t ∈ items, t.Sound s) :
    x.Builds s (TableDraft.buildEach s items) fun refs y =>
      refs.length = (TableDraft.storedEach s x.builder.forceDefaults items).length ∧
        ∀ (i : Nat) r t, refs[i]? = some r →
          (TableDraft.storedEach s x.builder.forceDefaults items)[i]? = some t →
            t.Made y.history r.rev := by
  match items with
  | [] =>
    rw [TableDraft.buildEach, TableDraft.storedEach]
    exact .of_pure firm (by simp)
  | t :: rest =>
    obtain ⟨sound, each⟩ := List.forall_mem_cons.mp each
    rw [TableDraft.buildEach, TableDraft.storedEach]
    refine (build_builds valid t firm sound.settable).bind fun r y continues made => ?_
    refine (buildEach_builds valid rest continues.firm each).bind fun refs z continues' given => ?_
    rw [continues.follows.forceDefaults] at given
    obtain ⟨length, elements⟩ := given
    refine .of_pure continues'.firm ⟨by simp [length], fun i r' t' isRef item => ?_⟩
    cases i with
    | zero =>
      cases isRef
      cases item
      exact made.mono continues'.history
    | succ i => exact elements i r' t' isRef item

end

end Construction
end FlatTable

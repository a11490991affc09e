import FlatTable.Proofs.Builder.Stored
import FlatTable.Proofs.Convert.Normal
import FlatTable.Proofs.Scalar.Shown

/-! JSON that has been read: what is to be built, without the errors that reading may come to. Building
from JSON is building what it stands for, and fails where it stands for nothing. -/
namespace FlatTable
open Build Builder

mutual

inductive Draft where
  | scalar (v : Value)
  | struct (members : List Value)
  | string (text : String)
  | scalars (t : ScalarType) (items : List Value)
  | strings (texts : List String)
  | table (t : TableDraft)
  | tables (items : List TableDraft)

/-- A table that is to be built. Its fields are set in this order. -/
inductive TableDraft where
  | mk (id : Nat) (fields : List (Nat × Draft))

end

namespace TableDraft

def id : TableDraft → Nat
  | mk id _ => id

def fields : TableDraft → List (Nat × Draft)
  | mk _ fields => fields

end TableDraft

/-! ### Reading -/

namespace Schema

def textsOfJson? (items : List Json) : Option (List String) :=
  items.mapM fun
    | .string text => some text
    | _ => none

/-- What JSON other than `null` asks a field for. `table` and `tables` read the tables in it. -/
def draftMember? (s : Schema) (f : FieldDef) (json : Json) (table : Nat → Option TableDraft)
    (tables : Nat → Option (List TableDraft)) : Option Draft :=
  match f.type with
  | .scalar _ | .enum _ => (s.scalarOfJson? f.type json).map .scalar
  | .struct id => (s.structOfJson f id json).toOption.map .struct
  | .table id => (table id).map .table
  | .vector (.table id) => (tables id).map .tables
  | .string =>
    match json with
    | .string text => some (.string text)
    | _ => none
  | .vector e =>
    match e, json with
    | .string, .array items => (textsOfJson? items).map .strings
    | e, .array items => (s.elementScalarType? e).bind fun t =>
        (s.elementsOfJson f e t items).toOption.map (.scalars t)
    | _, _ => none

mutual

def draftTable? (s : Schema) (id : Nat) : Json → Option TableDraft
  | .object members =>
    if (s.tables[id]?).isSome then (s.draftMembers? id members).map (.mk id) else none
  | _ => none

def draftMembers? (s : Schema) (id : Nat) : List (String × Json) → Option (List (Nat × Draft))
  | [] => some []
  | (name, json) :: rest =>
    match s.fieldNamed? id name with
    | none => none
    | some (i, f) =>
      if json.isNull then s.draftMembers? id rest
      else if f.deprecated then none
      else
        let table := fun nested => s.draftTable? nested json
        let tables := fun nested => s.draftVector? nested json
        (s.draftMember? f json table tables).bind fun d =>
          (s.draftMembers? id rest).map ((i, d) :: ·)

def draftVector? (s : Schema) (id : Nat) : Json → Option (List TableDraft)
  | .array items => s.draftTables? id items
  | _ => none

def draftTables? (s : Schema) (id : Nat) : List Json → Option (List TableDraft)
  | [] => some []
  | json :: rest => (s.draftTable? id json).bind fun t => (s.draftTables? id rest).map (t :: ·)

end

def draft? (s : Schema) (f : FieldDef) (json : Json) : Option Draft :=
  s.draftMember? f json (fun nested => s.draftTable? nested json)
    fun nested => s.draftVector? nested json

end Schema

/-! ### Building -/

namespace TableArgs

def blank (s : Schema) (id : Nat) : TableArgs :=
  ⟨s, id, Array.replicate ((s.tables[id]?.map fun t => t.fields.size).getD 0) none⟩

end TableArgs

mutual

def Draft.setting (s : Schema) : Draft → Build Setting
  | .scalar v => return .scalar v
  | .struct members => return .struct members
  | .string text => do return .reference (← createString text).placed
  | .scalars t items => do return .reference (← createVector t items).placed
  | .strings texts => do
    return .reference (← createStringVector (← texts.mapM createString)).placed
  | .table t => do return .reference (← t.build s).placed
  | .tables items => do
    return .reference (← createTableVector (← TableDraft.buildEach s items)).placed

def TableDraft.build (s : Schema) : TableDraft → Build (Ref .table)
  | .mk id fields => do createTable (← Draft.setEach s fields (.blank s id))

def Draft.setEach (s : Schema) : List (Nat × Draft) → TableArgs → Build TableArgs
  | [], a => return a
  | (i, d) :: rest, a => do Draft.setEach s rest (a.set i (← d.setting s))

def TableDraft.buildEach (s : Schema) : List TableDraft → Build (List (Ref .table))
  | [] => return []
  | t :: rest => do
    let r ← t.build s
    return r :: (← TableDraft.buildEach s rest)

end

namespace Build
variable {α β : Type} {b : Builder}

def Fails (steps : Build α) : Prop := ∀ b, ∃ e b', runFrom b steps = (.error e, b')

theorem fails_throw (e : BuildError) : Fails (throw e : Build α) := fun b => ⟨e, b, rfl⟩

theorem Fails.bind {x : Build α} (h : Fails x) (f : α → Build β) : Fails (x >>= f) := by
  intro b
  obtain ⟨e, b', ran⟩ := h b
  exact ⟨e, b', by rw [runFrom_bind, ran]⟩

theorem fails_bind {f : α → Build β} (x : Build α) (h : ∀ a, Fails (f a)) : Fails (x >>= f) := by
  intro b
  cases ran : runFrom b x with
  | mk result b₁ =>
    cases result with
    | error e => exact ⟨e, b₁, by rw [runFrom_bind, ran]⟩
    | ok a =>
      obtain ⟨e, b', ran'⟩ := h a b₁
      exact ⟨e, b', by rw [runFrom_bind, ran]; exact ran'⟩

theorem liftM_ok (a : α) : (liftM (.ok a : Except BuildError α) : Build α) = pure a := rfl

theorem fails_liftM (e : BuildError) : Fails (liftM (.error e : Except BuildError α) : Build α) :=
  fun b => ⟨e, b, rfl⟩

/-- Steps that build what has been read, and fail where there is nothing to be built. -/
def Realizes {δ : Type} (steps : Build α) (read : Option δ) (build : δ → Build α) : Prop :=
  match read with
  | some d => steps = build d
  | none => Fails steps

end Build

namespace TableArgs
variable {s : Schema} {a : TableArgs} {i : Nat} {f : FieldDef}

structure Open (s : Schema) (id : Nat) (a : TableArgs) : Prop where
  schema : a.schema = s
  table : a.table = id

theorem blank_open (s : Schema) (id : Nat) : (blank s id).Open s id := ⟨rfl, rfl⟩

theorem Open.set {id : Nat} (h : a.Open s id) (i : Nat) (x : Setting) : (a.set i x).Open s id :=
  ⟨h.schema, h.table⟩

theorem new_eq_blank {t : TableDef} {id : Nat} (found : s.tables[id]? = some t) :
    new s id = .ok (blank s id) := by
  simp [new, blank, found]

private theorem badMember?_eq_none {ms : List Member} {values : List Value}
    (types : values.map Value.type = ms.map Member.type) : badMember? ms values = none := by
  induction values generalizing ms with
  | nil =>
    obtain rfl : ms = [] := List.map_eq_nil_iff.mp types.symm
    rfl
  | cons v values ih =>
    cases ms with
    | nil => cases types
    | cons m ms =>
      obtain ⟨type, rest⟩ := List.cons.inj types
      rw [badMember?, if_pos type.symm, ih rest]

variable (field : a.schema.field? a.table i = some f) (live : f.deprecated = false)
include field live

private theorem writable_of_field : a.writable i = .ok f := by
  obtain ⟨t, table, found⟩ := Option.bind_eq_some_iff.mp field
  simp [writable, table, found, live]

theorem setScalar_eq {v : Value} (type : a.schema.scalarType? f.type = some v.type) :
    a.setScalar i v = .ok (a.set i (.scalar v)) := by
  rw [setScalar, writable_of_field field live, ok_bind, if_pos type]
  rfl

theorem setReference_eq {p : Placed} (accepted : a.schema.accepts f.type p.kind) :
    a.setReference i p = .ok (a.set i (.reference p)) := by
  rw [setReference, writable_of_field field live, ok_bind, if_pos accepted]
  rfl

theorem setStruct_eq {d : StructDef} {values : List Value}
    (struct : structOf? a.schema f.type = some d)
    (types : values.map Value.type = d.members.map Member.type) :
    a.setStruct i values = .ok (a.set i (.struct values)) := by
  have length : values.length = d.members.length := by
    simpa using congrArg List.length types
  rw [setStruct, writable_of_field field live, ok_bind, struct]
  simp only [length, ne_eq, not_true_eq_false, if_false, badMember?_eq_none types]
  rfl

end TableArgs

/-! ### Building what has been read -/

namespace Schema
variable {s : Schema} {f : FieldDef} {json : Json}

/-- The values that are read for a struct are of its members' types. -/
theorem types_of_structOfJson {id : Nat} {values : List Value}
    (read : s.structOfJson f id json = .ok values) :
    ∃ d, s.structs[id]? = some d ∧ values.map Value.type = d.members.map Member.type := by
  unfold structOfJson at read
  split at read
  · cases read
  · rename_i d members found
    refine ⟨d, found, ?_⟩
    split at read
    · cases read
    · clear found
      rename_i unknown
      clear unknown
      generalize d.members = ms at read
      induction ms generalizing values with
      | nil =>
        cases read
        rfl
      | cons m ms ih =>
        rw [List.mapM_cons] at read
        obtain ⟨v, first, read⟩ := bind_eq_ok_iff.mp read
        obtain ⟨rest, tail, read⟩ := bind_eq_ok_iff.mp read
        cases read
        rw [List.map_cons, List.map_cons, ih tail]
        split at first
        · cases first
        · split at first
          · rename_i scalar
            cases first
            rw [show v.type = m.type from (Option.some.inj (type_of_scalarOfJson? scalar)).symm]
          · cases first
  · cases read

end Schema

namespace Builder
variable {s : Schema} {f : FieldDef}

private theorem textsOfJson?_cons (text : String) (items : List Json) :
    Schema.textsOfJson? (.string text :: items) =
      (Schema.textsOfJson? items).map (text :: ·) := by
  rw [Schema.textsOfJson?, List.mapM_cons]
  change (Schema.textsOfJson? items).bind _ = _
  cases Schema.textsOfJson? items <;> rfl

private theorem placeStrings_realizes (items : List Json) (placed : List (Ref .string)) :
    Realizes (placeStrings f items placed) (Schema.textsOfJson? items)
      fun texts => do return placed.reverse ++ (← texts.mapM createString) := by
  induction items generalizing placed with
  | nil =>
    change placeStrings f [] placed = _
    simp [placeStrings]
  | cons item items ih =>
    cases item with
    | string text =>
      rw [placeStrings, textsOfJson?_cons]
      cases read : Schema.textsOfJson? items with
      | none =>
        refine fails_bind _ fun r => ?_
        have rest := ih (r :: placed)
        rwa [read] at rest
      | some texts =>
        change _ = _
        simp only [List.mapM_cons, bind_assoc, pure_bind]
        refine bind_congr fun r => ?_
        have rest := ih (r :: placed)
        rw [read] at rest
        exact rest.trans (by simp)
    | null | bool b | integer i | real bits | array items | object members => exact fails_throw _

variable {a : TableArgs} {id i : Nat} {json : Json}

/-- Setting a field to a string, or to a vector of anything but tables. -/
private theorem placeFlat_realizes (isOpen : a.Open s id) (field : s.field? id i = some f)
    (live : f.deprecated = false) (table : Nat → Option TableDraft)
    (tables : Nat → Option (List TableDraft))
    (flat : f.type = .string ∨ ∃ e, f.type = .vector e ∧ ∀ nested, e ≠ .table nested) :
    Realizes (placeFlat s f json >>= fun p => liftM (a.setReference i p))
      (s.draftMember? f json table tables) fun d => do return a.set i (← d.setting s) := by
  obtain ⟨rfl, rfl⟩ := isOpen
  have set {p : Placed} (accepted : a.schema.accepts f.type p.kind) :=
    TableArgs.setReference_eq field live accepted
  unfold placeFlat Schema.draftMember?
  rcases flat with isString | ⟨e, isVector, other⟩
  · rw [isString] at set ⊢
    cases json with
    | string text =>
      change _ = _
      simp only [Draft.setting, bind_assoc, pure_bind]
      refine bind_congr fun r => ?_
      rw [set rfl]
      rfl
    | null | bool b | integer i | real bits | array items | object members =>
      exact (fails_throw _).bind _
  · rw [isVector] at set ⊢
    cases e with
    | table nested => exact absurd rfl (other nested)
    | string =>
      cases json with
      | array items =>
        have strings := @placeStrings_realizes f items []
        dsimp only
        cases read : Schema.textsOfJson? items with
        | none =>
          rw [read] at strings
          exact (strings.bind _).bind _
        | some texts =>
          rw [read] at strings
          change _ = _
          rw [show placeStrings f items [] = _ from strings]
          simp only [Draft.setting, bind_assoc, pure_bind, List.reverse_nil, List.nil_append]
          refine bind_congr fun refs => bind_congr fun r => ?_
          rw [set rfl]
          rfl
      | null | bool b | integer i | real bits | string text | object members =>
        exact (fails_throw _).bind _
    | scalar t | enum e =>
      cases json with
      | array items =>
        dsimp only
        cases scalar : a.schema.elementScalarType? _ with
        | none => exact (fails_throw _).bind _
        | some t =>
          rw [Option.bind_some]
          dsimp only
          cases a.schema.elementsOfJson f _ t items with
          | error e => exact ((fails_liftM e).bind _).bind _
          | ok values =>
            change _ = _
            simp only [Draft.setting, liftM_ok, bind_assoc, pure_bind]
            refine bind_congr fun r => ?_
            rw [set (by simp [Schema.accepts, Ref.placed, scalar])]
            rfl
      | null | bool b | integer i | real bits | string text | object members =>
        exact (fails_throw _).bind _

/-- What setting a field comes to that is there. -/
theorem setMember_eq {t : TableDef} (found : t.fields[i]? = some f)
    (live : f.deprecated = false) (present : json.isNull = false)
    (table : Nat → Build (Ref .table)) (tables : FieldDef → Nat → Build (Ref (.vector .table))) :
    setMember s t i json table tables a =
      (match f.type with
      | .scalar _ | .enum _ => do a.setScalar i (← s.scalarOfJson f json)
      | .struct struct => do a.setStruct i (← s.structOfJson f struct json)
      | .table nested => do a.setReference i (← table nested).placed
      | .vector (.table nested) => do a.setReference i (← tables f nested).placed
      | _ => do a.setReference i (← placeFlat s f json)) := by
  cases json with
  | null => cases present
  | bool b | integer i | real bits | string text | array items | object members =>
    unfold setMember
    rw [found]
    dsimp only
    rw [live]
    rfl

/-- Setting one field, its tables being built as they have been read. -/
private theorem setMember_realizes {t : TableDef} (isOpen : a.Open s id)
    (known : s.tables[id]? = some t) (field : s.field? id i = some f)
    (live : f.deprecated = false) (present : json.isNull = false)
    {table : Nat → Build (Ref .table)} {tables : FieldDef → Nat → Build (Ref (.vector .table))}
    {readTable : Nat → Option TableDraft} {readTables : Nat → Option (List TableDraft)}
    (realizesTable : ∀ nested, Realizes (table nested) (readTable nested) (TableDraft.build s))
    (realizesTables : ∀ g nested, Realizes (tables g nested) (readTables nested)
      fun items => (do createTableVector (← TableDraft.buildEach s items))) :
    Realizes (setMember s t i json table tables a) (s.draftMember? f json readTable readTables)
      fun d => do return a.set i (← d.setting s) := by
  have found : t.fields[i]? = some f := by
    rwa [Schema.field?, known, Option.bind_some] at field
  have flat := @placeFlat_realizes s f a id i json isOpen field live readTable readTables
  obtain ⟨rfl, rfl⟩ := isOpen
  rw [setMember_eq found live present]
  cases type : f.type with
  | scalar scalar | enum scalar =>
    have read : a.schema.draftMember? f json readTable readTables =
        (a.schema.scalarOfJson? f.type json).map .scalar := by
      simp only [Schema.draftMember?, type]
    rw [read, Schema.scalarOfJson]
    cases value : a.schema.scalarOfJson? f.type json with
    | none => exact (fails_liftM _).bind _
    | some v =>
      change _ = _
      rw [liftM_ok, pure_bind,
        TableArgs.setScalar_eq field live (Schema.type_of_scalarOfJson? value)]
      rfl
  | struct struct =>
    have read : a.schema.draftMember? f json readTable readTables =
        (a.schema.structOfJson f struct json).toOption.map .struct := by
      simp only [Schema.draftMember?, type]
    rw [read]
    dsimp only
    cases values : a.schema.structOfJson f struct json with
    | error e => exact (fails_liftM e).bind _
    | ok values =>
      obtain ⟨d, isStruct, types⟩ := Schema.types_of_structOfJson values
      change _ = _
      rw [liftM_ok, pure_bind,
        TableArgs.setStruct_eq field live (by rw [type]; exact isStruct) types]
      rfl
  | table nested =>
    have read : a.schema.draftMember? f json readTable readTables =
        (readTable nested).map .table := by
      simp only [Schema.draftMember?, type]
    have built := realizesTable nested
    rw [read]
    dsimp only
    cases draft : readTable nested with
    | none =>
      rw [draft] at built
      exact built.bind _
    | some d =>
      rw [draft] at built
      change _ = _
      rw [show table nested = _ from built]
      simp only [Draft.setting, bind_assoc, pure_bind]
      refine bind_congr fun r => ?_
      rw [TableArgs.setReference_eq field live (by rw [type]; rfl)]
      rfl
  | string => exact flat (.inl type)
  | vector e =>
    cases e with
    | table nested =>
      have read : a.schema.draftMember? f json readTable readTables =
          (readTables nested).map .tables := by
        simp only [Schema.draftMember?, type]
      have built := realizesTables f nested
      rw [read]
      dsimp only
      cases draft : readTables nested with
      | none =>
        rw [draft] at built
        exact built.bind _
      | some items =>
        rw [draft] at built
        change _ = _
        rw [show tables f nested = _ from built]
        simp only [Draft.setting, bind_assoc, pure_bind]
        refine bind_congr fun refs => bind_congr fun r => ?_
        rw [TableArgs.setReference_eq field live (by rw [type]; rfl)]
        rfl
    | scalar t | enum e | string =>
      exact flat (.inr ⟨_, type, by simp⟩)

mutual

/-- Building a table from JSON is building what the JSON stands for. -/
theorem buildTable_realizes (s : Schema) (id : Nat) (json : Json) :
    Realizes (buildTable s id json) (s.draftTable? id json) (TableDraft.build s) := by
  match json with
  | .object members =>
    rw [buildTable, Schema.draftTable?]
    cases known : s.tables[id]? with
    | none => exact fails_throw _
    | some t =>
      have set := setMembers_realizes known members (TableArgs.blank_open s id)
      simp only [TableArgs.new_eq_blank known, liftM_ok, pure_bind, Option.isSome_some, if_true]
      cases read : s.draftMembers? id members with
      | none =>
        rw [read] at set
        exact set.bind _
      | some fields =>
        rw [read] at set
        change _ = _
        rw [show setMembers s t members (.blank s id) = _ from set, TableDraft.build]
  | .null | .bool _ | .integer _ | .real _ | .string _ | .array _ =>
    rw [buildTable, Schema.draftTable?]
    · split
      · exact fails_throw _
      · exact fails_throw _
    all_goals simp

theorem setMembers_realizes {s : Schema} {id : Nat} {t : TableDef} (known : s.tables[id]? = some t)
    (members : List (String × Json)) {a : TableArgs} (isOpen : a.Open s id) :
    Realizes (setMembers s t members a) (s.draftMembers? id members)
      (Draft.setEach s · a) := by
  match members with
  | [] =>
    rw [setMembers, Schema.draftMembers?]
    change _ = Draft.setEach s [] a
    rw [Draft.setEach]
  | (name, json) :: rest =>
    rw [setMembers, Schema.draftMembers?]
    cases number : t.fieldId? name with
    | none =>
      simp only [Schema.fieldNamed?, known, number, Option.bind_eq_bind, Option.bind_some,
        Option.bind_none]
      exact fails_throw _
    | some i =>
      obtain ⟨f, found, _⟩ := TableDef.exists_field number
      have field : s.field? id i = some f := by rw [Schema.field?, known, Option.bind_some, found]
      have named : s.fieldNamed? id name = some (i, f) := by
        simp [Schema.fieldNamed?, known, number, found]
      simp only [named]
      cases isNull : json.isNull with
      | true =>
        obtain rfl := Json.eq_null isNull
        have none (table : Nat → Build (Ref .table))
            (tables : FieldDef → Nat → Build (Ref (.vector .table))) :
            setMember s t i .null table tables a = pure a := rfl
        rw [none, pure_bind, if_pos rfl]
        exact setMembers_realizes known rest isOpen
      | false =>
        rw [if_neg Bool.false_ne_true]
        cases live : f.deprecated with
        | true =>
          refine Fails.bind ?_ _
          unfold setMember
          split
          · cases isNull
          · exact fails_throw _
          · rename_i g _ found'
            obtain rfl : f = g := Option.some.inj (found.symm.trans found')
            rw [if_pos live]
            exact (fails_throw _).bind _
        | false =>
          have set := setMember_realizes isOpen known field live isNull
            (fun nested => buildTable_realizes s nested json)
            fun g nested => buildTableVector_realizes s g nested json
          rw [if_neg Bool.false_ne_true]
          cases read : s.draftMember? f json (fun nested => s.draftTable? nested json)
              (fun nested => s.draftVector? nested json) with
          | none =>
            rw [read] at set
            exact Fails.bind set _
          | some d =>
            rw [read] at set
            rw [Option.bind_some, show setMember s t i json _ _ a = _ from set]
            simp only [bind_assoc, pure_bind]
            cases read' : s.draftMembers? id rest with
            | none =>
              refine fails_bind _ fun x => ?_
              have after := setMembers_realizes known rest (isOpen.set i x)
              rwa [read'] at after
            | some fields =>
              change _ = Draft.setEach s ((i, d) :: fields) a
              rw [Draft.setEach]
              refine bind_congr fun x => ?_
              have after := setMembers_realizes known rest (isOpen.set i x)
              rw [read'] at after
              exact after

theorem buildTableVector_realizes (s : Schema) (f : FieldDef) (id : Nat) (json : Json) :
    Realizes (buildTableVector s f id json) (s.draftVector? id json)
      fun items => (do createTableVector (← TableDraft.buildEach s items)) := by
  match json with
  | .array items =>
    have built := buildTables_realizes s id items []
    rw [buildTableVector, Schema.draftVector?]
    cases read : s.draftTables? id items with
    | none =>
      rw [read] at built
      exact built.bind _
    | some drafts =>
      rw [read] at built
      change _ = _
      rw [show buildTables s id items [] = _ from built]
      simp
  | .null | .bool _ | .integer _ | .real _ | .string _ | .object _ =>
    rw [buildTableVector, Schema.draftVector?]
    · exact fails_throw _
    all_goals simp

theorem buildTables_realizes (s : Schema) (id : Nat) (items : List Json)
    (built : List (Ref .table)) :
    Realizes (buildTables s id items built) (s.draftTables? id items)
      fun drafts => (do return built.reverse ++ (← TableDraft.buildEach s drafts)) := by
  match items with
  | [] =>
    rw [buildTables, Schema.draftTables?]
    change _ = _
    simp [TableDraft.buildEach]
  | json :: rest =>
    have first := buildTable_realizes s id json
    rw [buildTables, Schema.draftTables?]
    cases read : s.draftTable? id json with
    | none =>
      rw [read] at first
      exact first.bind _
    | some d =>
      rw [read] at first
      rw [Option.bind_some, show buildTable s id json = _ from first]
      cases read' : s.draftTables? id rest with
      | none =>
        refine fails_bind _ fun r => ?_
        have after := buildTables_realizes s id rest (r :: built)
        rwa [read'] at after
      | some drafts =>
        change _ = _
        simp only [TableDraft.buildEach, bind_assoc, pure_bind]
        refine bind_congr fun r => ?_
        have after := buildTables_realizes s id rest (r :: built)
        rw [read'] at after
        exact after.trans (by simp)

end

end Builder
end FlatTable

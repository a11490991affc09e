import FlatTable.Proofs.Builder.Raised
import FlatTable.Proofs.Convert.Composed

/-! What building from JSON can fail with by a valid schema: it is never the schema's own fault. -/
namespace FlatTable
open Build Builder

inductive Json.Holds (members : List (String × Json)) : Json → Prop where
  | here : Holds members (.object members)
  | item {items : List Json} {json : Json} (inside : json ∈ items) (below : Holds members json) :
      Holds members (.array items)
  | member {others : List (String × Json)} {key : String} {json : Json} (inside : (key, json) ∈ others)
      (below : Holds members json) : Holds members (.object others)

/-- An error that the document is to blame for, or the builder: no table is missing and no type of an element
or of a struct, and a name that is unknown stands in the document. -/
def BuildError.Blames (s : Schema) (json : Json) : BuildError → Prop
  | unknownTable _ => False
  | unknownField owner key =>
    ∃ members, Json.Holds members json ∧ key ∈ members.map Prod.fst ∧
      ((∃ t ∈ s.tables.toList, t.name = owner ∧ t.fieldId? key = none) ∨
        ∃ d ∈ s.structs.toList, d.name = owner ∧ d.memberId? key = none)
  | invalidValue _ reason => reason ≠ "unresolved element type" ∧ reason ≠ "unresolved struct type"
  | _ => True

namespace BuildError
variable {s : Schema} {e : BuildError} {json : Json}

theorem IsInner.blames (h : e.IsInner) : e.Blames s json := by
  cases e <;> first | exact h.elim | trivial

/-- A larger document is to blame for what a part of it is to blame for. -/
theorem Blames.within {whole : Json} (within : ∀ members, Json.Holds members json → Json.Holds members whole)
    (h : e.Blames s json) : e.Blames s whole := by
  cases e with
  | unknownField owner key =>
    obtain ⟨members, holds, rest⟩ := h
    exact ⟨members, within members holds, rest⟩
  | _ => exact h

private theorem blames_invalidValue {owner reason : String} (other : reason.toList.head? ≠ some 'u') :
    (invalidValue owner reason).Blames s json := by
  constructor <;> rintro rfl <;> exact other (by decide)

private theorem blames_cannotStore {owner rest : String} :
    (invalidValue owner ("can't store " ++ rest)).Blames s json :=
  blames_invalidValue (by simp [String.toList_append])

end BuildError

section
variable {s : Schema} {f : FieldDef} {json : Json} {e : BuildError}

private theorem blames_of_scalarOfJson (failed : s.scalarOfJson f json = .error e) : e.Blames s json := by
  unfold Schema.scalarOfJson at failed
  split at failed
  · cases failed
  · cases failed
    rw [String.append_assoc, String.append_assoc]
    exact BuildError.blames_cannotStore

private theorem blames_of_structOfJson {id : Nat} {d : StructDef} (found : s.structs[id]? = some d)
    (failed : s.structOfJson f id json = .error e) : e.Blames s json := by
  unfold Schema.structOfJson at failed
  rw [found] at failed
  split at failed
  · rename_i missing
    cases missing
  · rename_i d' members same
    cases same
    split at failed
    · rename_i key _ unknown
      cases failed
      have isUnknown := List.find?_some unknown
      have member : key ∈ members.map Prod.fst :=
        List.mem_map.mpr ⟨_, List.mem_of_find?_eq_some unknown, rfl⟩
      have declared := Array.mem_toList_iff.mpr (Array.mem_of_getElem? found)
      exact ⟨members, .here, member, .inr ⟨d, declared, rfl, by simpa using isUnknown⟩⟩
    · obtain ⟨m, _, failed⟩ := exists_of_mapM_eq_error failed
      split at failed
      · cases failed
        exact BuildError.blames_invalidValue (by simp [String.toList_append])
      · split at failed
        · cases failed
        · cases failed
          rw [String.append_assoc, String.append_assoc]
          exact BuildError.blames_cannotStore
  · cases failed
    exact BuildError.blames_invalidValue (by decide)

private theorem length_of_structOfJson {id : Nat} {d : StructDef} {values : List Value}
    (found : s.structs[id]? = some d) (read : s.structOfJson f id json = .ok values) :
    values.length = d.members.length := by
  unfold Schema.structOfJson at read
  rw [found] at read
  split at read
  · cases read
  · rename_i d' members same
    cases same
    split at read
    · cases read
    · exact (mapM_eq_ok_iff.mp read).length_eq.symm
  · cases read

private theorem blames_of_elementsOfJson {element : ElementType} {t : ScalarType} {items : List Json}
    (failed : s.elementsOfJson f element t items = .error e) : e.Blames s json := by
  obtain ⟨item, _, failed⟩ := exists_of_mapM_eq_error failed
  split at failed
  · cases failed
  · cases failed
    exact BuildError.blames_invalidValue (by simp [String.toList_append])

end

/-! ### Setting fields -/

namespace TableArgs
variable {a : TableArgs} {t : TableDef} {i : Nat} {f : FieldDef} {e : BuildError}

private theorem writable_eq (known : a.schema.tables[a.table]? = some t) (field : t.fields[i]? = some f)
    (live : f.deprecated = false) : a.writable i = .ok f := by
  simp only [writable, known, field, live, Bool.false_eq_true, if_false]

section
variable (writable : a.writable i = .ok f)
include writable

private theorem isInner_of_setScalar {v : Value} (failed : a.setScalar i v = .error e) : e.IsInner := by
  unfold setScalar at failed
  rw [writable, ok_bind] at failed
  split at failed
  · cases failed
  · cases failed
    trivial

private theorem isInner_of_setReference {p : Placed} (failed : a.setReference i p = .error e) : e.IsInner := by
  unfold setReference at failed
  rw [writable, ok_bind] at failed
  split at failed
  · cases failed
  · cases failed
    trivial

private theorem isInner_of_setStruct {id : Nat} {d : StructDef} {values : List Value}
    (type : f.type = .struct id) (found : a.schema.structs[id]? = some d)
    (length : values.length = d.members.length) (failed : a.setStruct i values = .error e) : e.IsInner := by
  unfold setStruct at failed
  rw [writable, ok_bind] at failed
  simp only [structOf?, type, found, ne_eq, length, not_true_eq_false, if_false] at failed
  split at failed
  · cases failed
    trivial
  · cases failed

end
end TableArgs

/-! ### Building -/

section
variable {s : Schema} (valid : s.Valid) {f : FieldDef} {json : Json}

private theorem placeStrings_raises (items : List Json) (placed : List (Ref .string)) :
    Raises (BuildError.Blames s json) (placeStrings f items placed) := by
  fun_induction placeStrings f items placed with
  | case1 placed => exact .of_pure _
  | case2 text rest placed ih =>
    exact ((createString_raises text).mono fun _ => BuildError.IsInner.blames).bind fun r _ => ih r
  | case3 => exact .of_throw (BuildError.blames_invalidValue (by decide))

private theorem placeFlat_raises (resolves : s.Resolves f.type)
    (flat : ∀ id, f.type ≠ .vector (.table id)) :
    Raises (BuildError.Blames s json) (placeFlat s f json) := by
  have inner {α : Type} {steps : Build α} (h : Raises BuildError.IsInner steps) :
      Raises (BuildError.Blames s json) steps := h.mono fun _ => BuildError.IsInner.blames
  unfold placeFlat
  split
  · exact (inner (createString_raises _)).bind fun _ _ => .of_pure _
  · exact .of_throw (BuildError.blames_invalidValue (by decide))
  · exact (placeStrings_raises _ _).bind fun _ _ =>
      (inner (createReferenceVector_raises _ _ _)).bind fun _ _ => .of_pure _
  · rename_i element items notString type
    split
    · rename_i missing
      exfalso
      cases element with
      | scalar t => cases missing
      | enum id =>
        have declared : s.Resolves (.enum id) := fun kind n reference => by
          cases reference
          exact resolves .enum id (by rw [type]; rfl)
        obtain ⟨t, underlying⟩ := declared.underlying
        exact absurd underlying (by rw [show s.underlying? id = none from missing]; simp)
      | string => exact notString rfl
      | table id => exact flat id type
    · exact (Raises.of_lift fun e failed => blames_of_elementsOfJson failed).bind fun _ _ =>
        (inner (createVector_raises _ _)).bind fun _ _ => .of_pure _
  · exact .of_throw (BuildError.blames_invalidValue (by decide))
  · exact .of_throw (BuildError.blames_invalidValue (by decide))

include valid

private theorem setMember_raises {a : TableArgs} {t : TableDef} {id i : Nat} (fits : a.Fits s)
    (same : a.table = id) (known : s.tables[id]? = some t) (inside : i < t.fields.size)
    {table : Nat → Build (Ref .table)} {tables : FieldDef → Nat → Build (Ref (.vector .table))}
    (ofTable : ∀ nested < s.tables.size, Raises (BuildError.Blames s json) (table nested))
    (ofTables : ∀ f, ∀ nested < s.tables.size, Raises (BuildError.Blames s json) (tables f nested)) :
    Raises (BuildError.Blames s json) (setMember s t i json table tables a) := by
  have field := Array.getElem?_eq_getElem inside
  unfold setMember
  split
  · exact .of_pure a
  · rename_i missing
    rw [field] at missing
    cases missing
  · rename_i json _ _ f _ found
    have declared : s.field? id i = some f := by rw [Schema.field?, known, Option.bind_some, found]
    have resolves := (valid.field declared).1
    refine .refuse (fun _ => trivial) fun live => ?_
    have writable : a.writable i = .ok f :=
      TableArgs.writable_eq (by rw [fits.schema, same, known]) found (by simpa using live)
    have sets {x : Except BuildError TableArgs} (h : ∀ e, x = .error e → e.IsInner) :
        Raises (BuildError.Blames s json) (liftM x : Build TableArgs) :=
      .of_lift fun e failed => (h e failed).blames
    have scalar : Raises (BuildError.Blames s json) (do a.setScalar i (← s.scalarOfJson f json) :
        Build TableArgs) :=
      (Raises.of_lift fun _ failed => blames_of_scalarOfJson failed).bind fun _ _ =>
        sets fun _ failed => TableArgs.isInner_of_setScalar writable failed
    have reference (p : Placed) : Raises (BuildError.Blames s json) (liftM (a.setReference i p) :
        Build TableArgs) := sets fun _ failed => TableArgs.isInner_of_setReference writable failed
    split
    · exact scalar
    · exact scalar
    · rename_i struct type
      obtain ⟨d, isStruct, _⟩ := valid.struct declared type
      refine (Raises.of_lift fun _ failed => blames_of_structOfJson isStruct failed).bind fun values read => ?_
      obtain ⟨_, _, read⟩ := read
      have length := length_of_structOfJson isStruct (runFrom_lift_eq_ok_iff.mp read).1
      exact sets fun _ failed => TableArgs.isInner_of_setStruct writable type
        (by rw [fits.schema]; exact isStruct) length failed
    · rename_i nested type
      exact (ofTable nested (resolves .table nested (by rw [type]; rfl))).bind fun r _ => reference r.placed
    · rename_i nested type
      exact (ofTables f nested (resolves .table nested (by rw [type]; rfl))).bind fun r _ => reference r.placed
    · rename_i flat
      exact (placeFlat_raises resolves fun nested => flat nested).bind fun p _ => reference p

end

namespace Schema.Valid
variable {s : Schema}

mutual

/-- What building a table that the schema has can fail with. -/
theorem buildTable_raises (valid : s.Valid) (id : Nat) (known : id < s.tables.size) (json : Json) :
    Raises (BuildError.Blames s json) (buildTable s id json) := by
  have found := Array.getElem?_eq_getElem known
  match json with
  | .object members =>
    rw [buildTable, found]
    refine (Raises.of_lift fun e failed => ?_).bind fun a returns => ?_
    · simp [TableArgs.new, found] at failed
    · obtain ⟨_, _, ran⟩ := returns
      obtain ⟨fits, same⟩ := TableArgs.new_fits (runFrom_lift_eq_ok_iff.mp ran).1
      refine (valid.setMembers_raises members members (fun _ member => member) found fits same).bind
        fun a' returns => ?_
      exact (createTable_raises (fits_of_setMembers members fits returns)).mono fun _ =>
        BuildError.IsInner.blames
  | .null | .bool _ | .integer _ | .real _ | .string _ | .array _ =>
    rw [buildTable, found]
    · exact .of_throw (BuildError.blames_invalidValue (by decide))
    all_goals simp

/-- The fields are set from the last `members` of an object whose members are `all`. -/
private theorem setMembers_raises (valid : s.Valid) (all members : List (String × Json))
    (part : ∀ m ∈ members, m ∈ all) {id : Nat} {t : TableDef} (found : s.tables[id]? = some t)
    {a : TableArgs} (fits : a.Fits s) (same : a.table = id) :
    Raises (BuildError.Blames s (.object all)) (setMembers s t members a) := by
  match members with
  | [] =>
    rw [setMembers]
    exact .of_pure a
  | (key, json) :: rest =>
    have here : (key, json) ∈ all := part _ List.mem_cons_self
    have below (e : BuildError) (h : e.Blames s json) : e.Blames s (.object all) :=
      h.within fun _ holds => .member here holds
    rw [setMembers]
    split
    · rename_i unknown
      have declared := Array.mem_toList_iff.mpr (Array.mem_of_getElem? found)
      exact .of_throw ⟨all, .here, List.mem_map.mpr ⟨_, here, rfl⟩, .inl ⟨t, declared, rfl, unknown⟩⟩
    · rename_i i named
      obtain ⟨f, field, _⟩ := TableDef.exists_field named
      have inside := (Array.getElem?_eq_some_iff.mp field).1
      refine Raises.bind ((setMember_raises valid fits same found inside ?_ ?_).mono below)
        fun a' returns => ?_
      · exact fun nested known => valid.buildTable_raises nested known json
      · exact fun f nested known => valid.buildTableVector_raises f nested known json
      · obtain ⟨fits', table⟩ := fits_of_setMember fits returns
        exact valid.setMembers_raises all rest (fun m member => part m (List.mem_cons_of_mem _ member)) found
          fits' (table.trans same)

private theorem buildTableVector_raises (valid : s.Valid) (f : FieldDef) (id : Nat)
    (known : id < s.tables.size) (json : Json) :
    Raises (BuildError.Blames s json) (buildTableVector s f id json) := by
  match json with
  | .array items =>
    rw [buildTableVector]
    refine (valid.buildTables_raises items id known items (fun _ member => member) []).bind fun _ _ => ?_
    exact (createReferenceVector_raises _ _ _).mono fun _ => BuildError.IsInner.blames
  | .null | .bool _ | .integer _ | .real _ | .string _ | .object _ =>
    rw [buildTableVector]
    · exact .of_throw (BuildError.blames_invalidValue (by decide))
    all_goals simp

/-- The tables are built from the last `items` of an array whose items are `all`. -/
private theorem buildTables_raises (valid : s.Valid) (all : List Json) (id : Nat)
    (known : id < s.tables.size) (items : List Json) (part : ∀ json ∈ items, json ∈ all)
    (built : List (Ref .table)) :
    Raises (BuildError.Blames s (.array all)) (buildTables s id items built) := by
  match items with
  | [] =>
    rw [buildTables]
    exact .of_pure _
  | json :: rest =>
    have here : json ∈ all := part _ List.mem_cons_self
    rw [buildTables]
    refine Raises.bind ((valid.buildTable_raises id known json).mono fun e h =>
      h.within fun _ holds => .item here holds) fun r _ => ?_
    exact valid.buildTables_raises all id known rest (fun m member => part m (List.mem_cons_of_mem _ member)) _

end

end Schema.Valid
end FlatTable

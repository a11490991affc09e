import FlatTable.Proofs.Renaming.Building
import FlatTable.Proofs.Renaming.Reading
import FlatTable.Proofs.Schema.Described

/-! The order in which a description declares its types gives them their numbers, and means nothing
else. -/
namespace FlatTable

/-- The second list holds the elements of the first, each at its new place. -/
structure Moves {α : Type} (place : Nat → Nat) (l l' : List α) : Prop where
  perm : l.Perm l'
  getElem? : ∀ i : Nat, l'[place i]? = l[i]?

namespace Moves
variable {α β : Type} {place : Nat → Nat} {l l' : List α}

/-- The elements of a reordered list have moved. -/
theorem exists_of_perm (perm : l.Perm l') : ∃ place, Moves place l l' := by
  suffices ∃ place : Nat → Nat, ∀ i : Nat, l'[place i]? = l[i]? by
    obtain ⟨place, moved⟩ := this
    exact ⟨place, perm, moved⟩
  induction perm with
  | nil => exact ⟨fun i => i, fun _ => rfl⟩
  | cons a _ ih =>
    obtain ⟨place, moved⟩ := ih
    refine ⟨fun i => i.casesOn 0 fun i => place i + 1, fun i => ?_⟩
    cases i with
    | zero => rfl
    | succ i => exact moved i
  | swap a b l =>
    refine ⟨fun i => i.casesOn 1 fun i => i.casesOn 0 fun i => i + 2, fun i => ?_⟩
    rcases i with _ | _ | i <;> rfl
  | trans _ _ ih ih' =>
    obtain ⟨place, moved⟩ := ih
    obtain ⟨place', moved'⟩ := ih'
    exact ⟨place' ∘ place, fun i => (moved' (place i)).trans (moved i)⟩

theorem map (moves : Moves place l l') (f : α → β) : Moves place (l.map f) (l'.map f) where
  perm := moves.perm.map f
  getElem? i := by rw [List.getElem?_map, List.getElem?_map, moves.getElem?]

/-- What is read from each element has moved with it. -/
theorem mapM {ε : Type} {f : α → Except ε β} {m : List β} (moves : Moves place l l')
    (read : l.mapM f = .ok m) : ∃ m', l'.mapM f = .ok m' ∧ Moves place m m' := by
  obtain ⟨m', read', perm⟩ := List.perm_comp_forall₂ moves.perm.symm (mapM_eq_ok_iff.mp read)
  have getElem? {l : List α} {m : List β} (each : l.Forall₂ (fun a b => f a = .ok b) m) (i : Nat) :
      m[i]? = l[i]?.bind fun a => (f a).toOption := by
    induction each generalizing i with
    | nil => rfl
    | cons first _ ih =>
      cases i with
      | zero => simp [first, Except.toOption]
      | succ i => exact ih i
  refine ⟨m', mapM_eq_ok_iff.mpr read', perm.symm, fun i => ?_⟩
  rw [getElem? read', getElem? (mapM_eq_ok_iff.mp read), moves.getElem?]

/-- What has a name of its own is found at its new place. -/
theorem findIdx? {name : α → String} (moves : Moves place l l') (distinct : (l'.map name).Nodup)
    (asked : String) : l'.findIdx? (fun a => name a == asked) =
      (l.findIdx? fun a => name a == asked).map place := by
  cases found : l.findIdx? fun a => name a == asked with
  | none =>
    rw [Option.map_none, List.findIdx?_eq_none_iff]
    exact fun a member => List.findIdx?_eq_none_iff.mp found a (moves.perm.mem_iff.mpr member)
  | some i =>
    obtain ⟨inside, named, _⟩ := List.findIdx?_eq_some_iff_getElem.mp found
    have moved := moves.getElem? i
    rw [List.getElem?_eq_getElem inside] at moved
    obtain ⟨inside', same⟩ := List.getElem?_eq_some_iff.mp moved
    rw [Option.map_some, List.findIdx?_eq_some_iff_getElem]
    refine ⟨inside', by rw [same]; exact named, fun j before => ?_⟩
    intro again
    have differ := List.pairwise_iff_getElem.mp distinct j (place i) (by simp; omega) (by simpa) before
    simp only [List.getElem_map, same] at differ
    exact differ ((beq_iff_eq.mp again).trans (beq_iff_eq.mp named).symm)

end Moves

namespace Renaming

structure Calls (r : Renaming) (s s' : Schema) : Prop where
  enumId? : ∀ name, s'.enumId? name = (s.enumId? name).map r.enum
  structId? : ∀ name, s'.structId? name = (s.structId? name).map r.struct
  tableId? : ∀ name, s'.tableId? name = (s.tableId? name).map r.table

/-! ### Resolving names -/

private theorem mapM_except_map {α β γ ε : Type} (f : α → Except ε β) (g : β → γ) (l : List α) :
    (l.mapM fun a => (f a).map g) = (l.mapM f).map (List.map g) := by
  induction l with
  | nil => rfl
  | cons a l ih =>
    rw [List.mapM_cons, List.mapM_cons, ih]
    cases f a with
    | error e => rfl
    | ok b => cases l.mapM f <;> rfl

section
variable {r : Renaming} {s s' : Schema}

theorem Calls.namedType? (calls : r.Calls s s') (name : String) :
    s'.namedType? name = (s.namedType? name).map r.type := by
  unfold Schema.namedType?
  rw [calls.enumId?, calls.structId?, calls.tableId?]
  by_cases isString : name = "string"
  · rw [if_pos isString, if_pos isString]
    rfl
  · rw [if_neg isString, if_neg isString]
    cases s.enumId? name with
    | some id => rfl
    | none =>
      cases s.structId? name with
      | some id => rfl
      | none =>
        cases s.tableId? name with
        | some id => rfl
        | none => cases ScalarType.ofName? name <;> rfl

theorem elementType?_type (r : Renaming) (type : FieldType) :
    Schema.elementType? (r.type type) = (Schema.elementType? type).map r.element := by
  cases type <;> rfl

theorem Calls.resolveType? (calls : r.Calls s s') (name : String) :
    s'.resolveType? name = (s.resolveType? name).map r.type := by
  unfold Schema.resolveType?
  simp only [calls.namedType?]
  cases Schema.bracketed? (Text.trim name.toList) with
  | none => rfl
  | some inner =>
    simp only
    split
    · rfl
    · cases s.namedType? (String.ofList (Text.trim inner)) with
      | none => rfl
      | some type =>
        simp only [Option.map_some, Option.bind_some, elementType?_type]
        cases Schema.elementType? type <;> rfl

theorem Renames.resolveDefault? (renames : r.Renames s s') (type : FieldType) (raw : Json) :
    s'.resolveDefault? (r.type type) raw = s.resolveDefault? type raw := by
  unfold Schema.resolveDefault?
  rw [renames.scalarType?]
  cases type with
  | enum id => simp only [Renaming.type, renames.enums]
  | scalar _ | string | vector _ | table _ | struct _ => rfl

variable (renames : r.Renames s s') (calls : r.Calls s s')
include renames calls

theorem resolveField (table : String) (f : Description.Field) :
    s'.resolveField table f = (s.resolveField table f).map r.field := by
  unfold Schema.resolveField
  rw [calls.resolveType?]
  cases s.resolveType? f.type with
  | none => rfl
  | some type =>
    simp only [Option.map_some]
    cases f.declared with
    | none => rfl
    | some raw =>
      simp only [renames.resolveDefault?]
      cases s.resolveDefault? type raw <;> rfl

theorem resolveTable (t : Description.Table) :
    Schema.resolveTable s' t = (Schema.resolveTable s t).map r.tableDef := by
  have fields : t.fields.mapM (s'.resolveField t.name) =
      (t.fields.mapM (s.resolveField t.name)).map (List.map r.field) := by
    rw [funext (resolveField renames calls t.name), mapM_except_map]
  unfold Schema.resolveTable
  rw [fields]
  cases t.fields.mapM (s.resolveField t.name) with
  | error e => rfl
  | ok fields => exact congrArg Except.ok (by simp [tableDef])

/-- All tables are resolved at once. -/
theorem resolveTables {l : List Description.Table} {tables : List TableDef}
    (resolved : l.mapM (Schema.resolveTable s) = .ok tables) :
    l.mapM (Schema.resolveTable s') = .ok (tables.map r.tableDef) := by
  rw [funext (resolveTable renames calls), mapM_except_map, resolved]
  rfl

end

/-! ### Validation -/

def number (r : Renaming) : ReferenceKind → Nat → Nat
  | .enum => r.enum
  | .struct => r.struct
  | .table | .root => r.table

theorem reference?_type (r : Renaming) (type : FieldType) :
    Schema.reference? (r.type type) =
      (Schema.reference? type).map fun (kind, id) => (kind, r.number kind id) := by
  cases type with
  | vector e => cases e <;> rfl
  | scalar _ | enum _ | string | table _ | struct _ => rfl

section
variable {r : Renaming} {s s' : Schema} (renames : r.Renames s s')
include renames

theorem Renames.number_lt {kind : ReferenceKind} {id : Nat} (known : id < s.countOf kind) :
    r.number kind id < s'.countOf kind := by
  have inside {α β : Type} {l : Array α} {l' : Array β} {i j : Nat}
      (same : l'[j]?.isSome = l[i]?.isSome) (known : i < l.size) : j < l'.size := by
    simpa [known] using same
  cases kind with
  | enum => exact inside (by rw [number, renames.enums]) known
  | struct => exact inside (by rw [number, renames.structs]) known
  | table | root => exact inside (by rw [number, renames.tables, Option.isSome_map]) known

theorem Renames.resolves {type : FieldType} (resolves : s.Resolves type) :
    s'.Resolves (r.type type) := by
  intro kind number refers
  rw [reference?_type] at refers
  obtain ⟨⟨kind, id⟩, referred, same⟩ := Option.map_eq_some_iff.mp refers
  cases same
  exact renames.number_lt (resolves kind id referred)

omit renames in
private theorem toList_fields (t : TableDef) :
    (r.tableDef t).fields.toList = t.fields.toList.map r.field := by
  simp [tableDef]

theorem Renames.tableDef_valid {t : TableDef} (valid : t.Valid s) : (r.tableDef t).Valid s' where
  few := by simpa using valid.few
  distinct := by simpa [tableDef, Function.comp_def] using valid.distinct
  resolves := by
    intro f' member
    rw [toList_fields] at member
    obtain ⟨f, among, rfl⟩ := List.mem_map.mp member
    exact renames.resolves (valid.resolves f among)
  declared := by
    intro f' member v isDeclared
    rw [toList_fields] at member
    obtain ⟨f, among, rfl⟩ := List.mem_map.mp member
    rw [type_field, renames.scalarType?]
    exact valid.declared f among v isDeclared

end
end Renaming

/-! ### Schemas whose declarations are in another order -/

def Schema.declaredNames (s : Schema) : List String :=
  s.enums.toList.map EnumDef.name ++ s.structs.toList.map StructDef.name ++
    s.tables.toList.map TableDef.name

/-- `s'` declares what `s` declares, in the order that the new numbers tell. -/
structure Renaming.Reorders (r : Renaming) (s s' : Schema) : Prop where
  enums : Moves r.enum s.enums.toList s'.enums.toList
  structs : Moves r.struct s.structs.toList s'.structs.toList
  tables : Moves r.table (s.tables.toList.map r.tableDef) s'.tables.toList

private theorem findIdx?_toList {α : Type} (l : Array α) (p : α → Bool) :
    l.toList.findIdx? p = l.findIdx? p := (List.findIdx?_toArray p l.toList).symm

namespace Renaming.Reorders
variable {r : Renaming} {s s' : Schema} (reorders : r.Reorders s s')
include reorders

theorem renames : r.Renames s s' where
  enums i := by simpa only [Array.getElem?_toList] using reorders.enums.getElem? i
  structs i := by simpa only [Array.getElem?_toList] using reorders.structs.getElem? i
  tables i := by
    simpa only [List.getElem?_map, Array.getElem?_toList] using reorders.tables.getElem? i

theorem declaredNames : s.declaredNames.Perm s'.declaredNames := by
  have tables := reorders.tables.perm.map TableDef.name
  rw [List.map_map] at tables
  exact ((reorders.enums.perm.map _).append (reorders.structs.perm.map _)).append tables

theorem calls (distinct : s.declaredNames.Nodup) : r.Calls s s' := by
  obtain ⟨distinct, distinctTables, _⟩ :=
    List.nodup_append.mp (reorders.declaredNames.nodup_iff.mp distinct)
  obtain ⟨distinctEnums, distinctStructs, _⟩ := List.nodup_append.mp distinct
  refine ⟨fun name => ?_, fun name => ?_, fun name => ?_⟩
  · have found := reorders.enums.findIdx? distinctEnums name
    rwa [findIdx?_toList, findIdx?_toList] at found
  · have found := reorders.structs.findIdx? distinctStructs name
    rwa [findIdx?_toList, findIdx?_toList] at found
  · have found := reorders.tables.findIdx? distinctTables name
    rwa [findIdx?_toList, List.findIdx?_map, findIdx?_toList] at found

theorem valid (valid : s.Valid) (rooted : s'.root = s.root.map r.table) : s'.Valid where
  enums e member := valid.enums e (reorders.enums.perm.mem_iff.mpr member)
  structs d member := valid.structs d (reorders.structs.perm.mem_iff.mpr member)
  tables t' member := by
    obtain ⟨t, among, rfl⟩ := List.mem_map.mp (reorders.tables.perm.mem_iff.mpr member)
    exact reorders.renames.tableDef_valid (valid.tables t among)
  distinct := reorders.declaredNames.nodup_iff.mp valid.distinct
  root id' isRoot := by
    rw [rooted] at isRoot
    obtain ⟨id, isRooted, rfl⟩ := Option.map_eq_some_iff.mp isRoot
    have known : id < s.countOf .root := valid.root id isRooted
    exact reorders.renames.number_lt known

end Renaming.Reorders

/-! ### Descriptions -/

/-- The same enums, structs and tables, in any order. -/
structure Description.Reordered (d d' : Description) : Prop where
  nameSpace : d'.nameSpace = d.nameSpace
  attributes : d'.attributes = d.attributes
  enums : d.enums.Perm d'.enums
  structs : d.structs.Perm d'.structs
  tables : d.tables.Perm d'.tables
  root : d'.root = d.root

namespace Description

def reversed (d : Description) : Description :=
  { d with enums := d.enums.reverse, structs := d.structs.reverse, tables := d.tables.reverse }

theorem reordered_reversed (d : Description) : d.Reordered d.reversed where
  nameSpace := rfl
  attributes := rfl
  enums := (List.reverse_perm d.enums).symm
  structs := (List.reverse_perm d.structs).symm
  tables := (List.reverse_perm d.tables).symm
  root := rfl

end Description

namespace Schema
variable {d d' : Description} {s : Schema}

theorem usesVec3_of_reordered (reordered : d.Reordered d') : d'.usesVec3 = d.usesVec3 := by
  simp only [Description.usesVec3, reordered.enums.any_eq, reordered.structs.any_eq,
    reordered.tables.any_eq]

private theorem name_of_resolveTable {names : Schema} {t : Description.Table} {resolved : TableDef}
    (h : resolveTable names t = .ok resolved) : t.name = resolved.name := by
  obtain ⟨fields, _, done⟩ := bind_eq_ok_iff.mp h
  cases done
  rfl

/-- The types keep their names when their fields are resolved. -/
theorem declaredNames_of_resolved {enums : List EnumDef} {declared : List StructDef}
    {tables : List TableDef} {root : Option Nat}
    (resolved : d.tables.mapM (resolveTable (named d enums declared)) = .ok tables) :
    (named d enums declared).declaredNames =
      { named d enums declared with tables := tables.toArray, root := root }.declaredNames := by
  have names : d.tables.map Description.Table.name = tables.map TableDef.name := by
    have each := (mapM_eq_ok_iff.mp resolved).imp fun _ _ => name_of_resolveTable
    rw [← List.forall₂_eq_eq_eq, List.forall₂_map_left_iff, List.forall₂_map_right_iff]
    exact each
  simp [declaredNames, named, names, Function.comp_def]

/-- The names of a reordered description are those of the description, in another order. -/
theorem exists_reorders_named (reordered : d.Reordered d') {enums : List EnumDef}
    {declared : List StructDef} (readEnums : d.enums.mapM Description.Enum.resolve = .ok enums)
    (readStructs : d.structs.mapM Description.Struct.resolve = .ok declared) :
    ∃ r enums' declared', d'.enums.mapM Description.Enum.resolve = .ok enums' ∧
      d'.structs.mapM Description.Struct.resolve = .ok declared' ∧ Moves r.table d.tables d'.tables ∧
      Renaming.Reorders r (named d enums declared) (named d' enums' declared') := by
  obtain ⟨_, declaredEnums⟩ := Moves.exists_of_perm reordered.enums
  obtain ⟨enums', readEnums', movesEnums⟩ := declaredEnums.mapM readEnums
  obtain ⟨_, declaredStructs⟩ := Moves.exists_of_perm reordered.structs
  obtain ⟨declared', readStructs', movesDeclared⟩ := declaredStructs.mapM readStructs
  have structs : (named d enums declared).structs.toList.Perm (named d' enums' declared').structs.toList := by
    simp only [named, usesVec3_of_reordered reordered]
    split
    · exact movesDeclared.perm.append_right _
    · exact movesDeclared.perm
  obtain ⟨_, movesStructs⟩ := Moves.exists_of_perm structs
  obtain ⟨_, movesTables⟩ := Moves.exists_of_perm reordered.tables
  refine ⟨⟨_, _, _⟩, enums', declared', readEnums', readStructs', movesTables, movesEnums,
    movesStructs, ?_⟩
  simpa [named, Renaming.tableDef, Function.comp_def] using
    movesTables.map fun t => (⟨t.name, #[]⟩ : TableDef)

/-- A reordered description is accepted, and its schema declares the same in another order. -/
theorem exists_reorders (reordered : d.Reordered d') (accepted : ofDescription d = .ok s) :
    ∃ r s', ofDescription d' = .ok s' ∧ Renaming.Reorders r s s' ∧ s'.root = s.root.map r.table := by
  obtain ⟨enums, declared, tables, readEnums, readStructs, readTables, known, rfl, validated⟩ :=
    ofDescription_eq_ok_iff.mp accepted
  have valid := valid_of_validate validated
  obtain ⟨r, enums', declared', readEnums', readStructs', movesTables, reorders⟩ :=
    exists_reorders_named reordered readEnums readStructs
  -- A name calls the same type in both orders only because no other type has it.
  have calls := reorders.calls ((declaredNames_of_resolved readTables) ▸ valid.distinct)
  obtain ⟨tables', readTables', moved⟩ :=
    movesTables.mapM (Renaming.resolveTables reorders.renames calls readTables)
  have root : d'.root.bind (named d' enums' declared').tableId? =
      (d.root.bind (named d enums declared).tableId?).map r.table := by
    rw [reordered.root, funext calls.tableId?, Option.map_bind]
    rfl
  have known' (name : String) (isRoot : d'.root = some name) :
      ((named d' enums' declared').tableId? name).isSome := by
    rw [calls.tableId?, Option.isSome_map]
    exact known name (reordered.root ▸ isRoot)
  have reordered : Renaming.Reorders r
      { named d enums declared with
        tables := tables.toArray, root := d.root.bind (named d enums declared).tableId? }
      { named d' enums' declared' with
        tables := tables'.toArray, root := d'.root.bind (named d' enums' declared').tableId? } :=
    ⟨reorders.enums, reorders.structs, moved⟩
  have validated' := validate_of_valid (reordered.valid valid root)
  exact ⟨r, _, ofDescription_eq_ok_iff.mpr
    ⟨enums', declared', tables', readEnums', readStructs', readTables', known', rfl, validated'⟩,
    reordered, root⟩

/-- The root that a description declares is there. -/
theorem valid_of_ofDescription (accepted : ofDescription d = .ok s) (rooted : d.root.isSome) :
    s.Valid ∧ ∃ id, s.root = some id := by
  obtain ⟨_, _, _, _, _, _, known, rfl, validated⟩ := ofDescription_eq_ok_iff.mp accepted
  obtain ⟨name, isName⟩ := Option.isSome_iff_exists.mp rooted
  obtain ⟨id, isRoot⟩ := Option.isSome_iff_exists.mp (known name isName)
  exact ⟨valid_of_validate validated, id, by simp only [isName, Option.bind_some, isRoot]⟩

def verdict (s : Schema) (options : VerifierOptions) (identifier : Option Identifier) (b : Buffer) :
    Except VerifyError (Nat × Json) := do
  let root ← (Verifier.mk s options identifier none).verify b
  return (root.position, s.tableJson ⟨b, root.position⟩ root.table)

/-- The order in which types are declared does not matter, if the root is declared: the same descriptions
are accepted, the same buffers are built, and the same buffers are accepted and rendered alike. -/
theorem ofDescription_reordered (reordered : d.Reordered d') (rooted : d.root.isSome)
    (accepted : ofDescription d = .ok s) :
    ∃ s', ofDescription d' = .ok s' ∧ (∀ json, s'.bufferOfJson json = s.bufferOfJson json) ∧
      ∀ options identifier b, s'.verdict options identifier b = s.verdict options identifier b := by
  obtain ⟨r, s', accepted', reorders, root⟩ := exists_reorders reordered accepted
  obtain ⟨valid, id, isRoot⟩ := valid_of_ofDescription accepted rooted
  have isRoot' : s'.root = some (r.table id) := by rw [root, isRoot, Option.map_some]
  refine ⟨s', accepted', reorders.renames.bufferOfJson valid isRoot isRoot',
    fun options identifier b => ?_⟩
  rw [verdict, reorders.renames.verify valid isRoot isRoot', verdict]
  cases (Verifier.mk s options identifier none).verify b with
  | error e => rfl
  | ok root =>
    exact congrArg (fun json => Except.ok (root.position, json))
      (reorders.renames.tableJson ⟨b, root.position⟩ root.table)

/-- A party and its members, who are declared behind it, and of whom one leads it. -/
def parties : Description :=
  ⟨"", [], [⟨"Rank", "byte", [⟨"Low", none⟩, ⟨"High", some 5⟩]⟩, ⟨"Side", "ubyte", [⟨"Left", none⟩]⟩],
    [⟨"Size", [⟨"width", "short"⟩]⟩],
    [⟨"Party", [⟨"side", "Side", none, false, []⟩, ⟨"lead", "Member", none, false, []⟩,
      ⟨"all", "[Member]", none, false, []⟩]⟩,
      ⟨"Member", [⟨"rank", "Rank", some (.string "High"), false, []⟩, ⟨"place", "Vec3", none, false, []⟩,
        ⟨"size", "Size", none, false, []⟩, ⟨"party", "Party", none, false, []⟩]⟩],
    some "Party"⟩

theorem parties_reversed : parties.Reordered parties.reversed ∧ parties.root.isSome ∧
    (ofDescription parties).toOption ≠ (ofDescription parties.reversed).toOption ∧
    ∃ s s', ofDescription parties = .ok s ∧ ofDescription parties.reversed = .ok s' ∧
      (∀ json, s'.bufferOfJson json = s.bufferOfJson json) ∧
      ∀ options identifier b, s'.verdict options identifier b = s.verdict options identifier b := by
  have resolved : (ofDescription parties).toOption.isSome := by decide +kernel
  obtain ⟨s, accepted⟩ := Option.isSome_iff_exists.mp resolved
  have accepted := toOption_eq_some_iff.mp accepted
  obtain ⟨s', accepted', same⟩ := ofDescription_reordered parties.reordered_reversed rfl accepted
  exact ⟨parties.reordered_reversed, rfl, by decide +kernel, s, s', accepted, accepted', same⟩

end Schema
end FlatTable

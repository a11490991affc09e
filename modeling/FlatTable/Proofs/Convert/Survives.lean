import FlatTable.Proofs.Convert.Buffers
import FlatTable.Proofs.Convert.Reread
import FlatTable.Proofs.Convert.RoundTrip
import FlatTable.Proofs.Convert.Viewed

/-! Whatever bytes are accepted, what they are shown as can be built, and is accepted and shown the
same. -/
namespace FlatTable
open Ieee

/-! ### Numbers that are the same -/

namespace Value
variable {v d : Value}

/-- A value is shown as the same number as itself. -/
theorem same_toJson (v : Value) : v.toJson.same v.toJson := by
  unfold toJson
  cases format : v.type.format? with
  | none =>
    dsimp only
    split <;> simp [Json.same]
  | some f =>
    dsimp only
    split
    · rename_i finite
      rw [Json.same]
      split
      · rename_i isDouble
        exact Format.numEq_self (isDouble ▸ finite)
      · rename_i other
        have isSingle : f = Format.single := by
          cases type : v.type <;> simp_all [ScalarType.format?]
        rw [isSingle] at finite ⊢
        exact Format.numEq_self (Format.isFinite_convert_double finite)
    · rfl

/-- Values that are equal as numbers are shown as the same number. -/
theorem same_toJson_of_numEq (same : d.numEq v) : d.toJson.same v.toJson := by
  cases exact : v.type.format? with
  | none => exact eq_of_numEq same exact ▸ same_toJson d
  | some f =>
    have zero {f : Format} {p p' : Nat} (same : f.numEq p p') (other : p ≠ p') :
        f.magnitude p = 0 ∧ f.magnitude p' = 0 := by
      simp only [Format.numEq, Bool.and_eq_true, Bool.or_eq_true, beq_iff_eq] at same
      exact same.2.resolve_left other
    obtain ⟨t, p, fits⟩ := d
    obtain ⟨t', p', fits'⟩ := v
    rw [numEq, Bool.and_eq_true, beq_iff_eq] at same
    obtain ⟨type, same⟩ := same
    obtain rfl : t = t' := type
    by_cases equal : p = p'
    · subst equal
      exact same_toJson _
    cases t with
    | float =>
      have bits {q : Nat} (fits : q < 2 ^ 32) (zero : Format.single.magnitude q = 0) :
          q ∈ [0, 2 ^ 31] := by
        have zero : q % 2 ^ 31 = 0 := zero
        rw [List.mem_cons, List.mem_singleton]
        omega
      have zeros : ∀ q ∈ [0, 2 ^ 31], ∀ q' ∈ [0, 2 ^ 31],
          (ScalarType.float.value q).toJson.same (ScalarType.float.value q').toJson := by
        decide +kernel
      obtain ⟨left, right⟩ := zero same equal
      have shown := zeros p (bits fits left) p' (bits fits' right)
      rwa [show ScalarType.float.value p = ⟨.float, p, fits⟩ from type_value_pattern ⟨.float, p, fits⟩,
        show ScalarType.float.value p' = ⟨.float, p', fits'⟩ from
          type_value_pattern ⟨.float, p', fits'⟩] at shown
    | double =>
      obtain ⟨left, right⟩ := zero same equal
      have finite {q : Nat} (zero : Format.double.magnitude q = 0) :
          Format.double.isFinite q = true := by
        rw [Format.isFinite, zero]
        decide
      simp only [toJson, ScalarType.format?, finite left, finite right, if_true]
      exact same
    | _ => cases exact

end Value

namespace Schema
variable {s : Schema}

theorem same_scalarJson_self (enum : Option Nat) (v : Value) :
    (s.scalarJson enum v).same (s.scalarJson enum v) := by
  unfold scalarJson
  dsimp only
  split
  · simp [Json.same]
  · exact v.same_toJson

/-- Values that are equal as numbers are shown as the same. Floating-point numbers have no names. -/
theorem same_scalarJson (enum : Option Nat) {d v : Value} (same : d.numEq v) :
    (s.scalarJson enum d).same (s.scalarJson enum v) := by
  cases exact : v.type.format? with
  | none => exact Value.eq_of_numEq same exact ▸ same_scalarJson_self enum d
  | some f =>
    have type : d.type = v.type := by
      rw [Value.numEq, Bool.and_eq_true, beq_iff_eq] at same
      exact same.1
    have unnamed {w : Value} (format : w.type.format? = some f) : s.scalarJson enum w = w.toJson := by
      have long : w.asLong? = none := by rw [Value.asLong?, format]
      simp [scalarJson, long]
    rw [unnamed (type ▸ exact), unnamed exact]
    exact Value.same_toJson_of_numEq same

/-! ### Defaults -/

theorem forall₂_filterMap {α β : Type} {R : β → β → Prop} {f g : α → Option β} {l : List α}
    (related : ∀ a ∈ l, Option.Rel R (f a) (g a)) : (l.filterMap f).Forall₂ R (l.filterMap g) := by
  induction l with
  | nil => exact .nil
  | cons a l ih =>
    obtain ⟨here, later⟩ := List.forall_mem_cons.mp related
    cases left : f a with
    | none =>
      cases right : g a with
      | none =>
        rw [List.filterMap_cons_none left, List.filterMap_cons_none right]
        exact ih later
      | some b => rw [left, right] at here; cases here
    | some b =>
      cases right : g a with
      | none => rw [left, right] at here; cases here
      | some c =>
        rw [left, right] at here
        cases here with
        | some first =>
          rw [List.filterMap_cons_some left, List.filterMap_cons_some right]
          exact .cons first (ih later)

end Schema

section
variable {s : Schema}

/-- A table is the same when defaults in it are left out. -/
private theorem TableDraft.same_of_each (valid : s.Valid) {id : Nat} {fields : List (Nat × Draft)}
    (sound : (TableDraft.mk id fields).Sound s)
    (each : ∀ e ∈ fields, ∀ type, ((e.2.stored s false).json s type).same (e.2.json s type)) :
    (((TableDraft.mk id fields).stored s false).json s).same ((TableDraft.mk id fields).json s) := by
  cases sound with
  | mk known ordered typed _ =>
    obtain ⟨t, found⟩ := Option.isSome_iff_exists.mp known
    rw [TableDraft.stored, TableDraft.json, TableDraft.json, Schema.normalTable, Schema.normalTable,
      found]
    refine Json.same_ofMembers (Schema.forall₂_filterMap fun entry member => ?_)
    obtain ⟨f, i⟩ := entry
    have field := (Schema.mem_zipIdx_fields found).mp member
    rw [Schema.normalMember?, Schema.normalMember?]
    dsimp only
    cases f.deprecated with
    | true => exact .none
    | false =>
      rw [if_neg Bool.false_ne_true, if_neg Bool.false_ne_true]
      by_cases kept : i ∈ (Draft.storedEach s false id fields).map Prod.fst
      · obtain ⟨⟨j, d'⟩, inStored, rfl⟩ := List.mem_map.mp kept
        obtain ⟨d, asked, _, rfl⟩ := Draft.mem_storedEach.mp inStored
        rw [Draft.member?_jsonEach ordered.storedEach field inStored,
          Draft.member?_jsonEach ordered field asked]
        exact .some ⟨rfl, each _ asked f.type⟩
      rw [Draft.member?_jsonEach_eq_none valid (TableArgs.Typed.storedEach typed) field kept]
      by_cases asked : i ∈ fields.map Prod.fst
      · -- What is asked for and not stored is equal to the default.
        obtain ⟨⟨j, d⟩, inFields, rfl⟩ := List.mem_map.mp asked
        rw [Draft.member?_jsonEach ordered field inFields]
        cases omitted : d.omitted s id j with
        | false =>
          exact absurd (List.mem_map_of_mem (Draft.mem_storedEach.mpr
            ⟨d, inFields, by simp [omitted], rfl⟩ : (j, d.stored s false) ∈ _)) kept
        | true =>
          cases d with
          | scalar v =>
            rw [Draft.omitted, Builder.isDefault] at omitted
            split at omitted
            · rename_i default isDefault
              rw [isDefault, Draft.json]
              exact .some ⟨rfl, Schema.same_scalarJson _ omitted⟩
            · cases omitted
          | struct values | string text | scalars t items | strings texts | table t | tables items =>
            cases omitted
      · rw [Draft.member?_jsonEach_eq_none valid typed field asked]
        cases s.fieldDefault? id i with
        | none => exact .none
        | some v => exact .some ⟨rfl, Schema.same_scalarJson_self _ v⟩

private theorem same_structJson (d : StructDef) (values : List Value) :
    (d.json s values).same (d.json s values) :=
  Json.same_ofMembers (List.forall₂_same.mpr fun m member => by
    obtain ⟨⟨_, v⟩, _, rfl⟩ := List.mem_map.mp member
    exact ⟨rfl, @Schema.same_scalarJson_self s none v⟩)

mutual

/-- A field is the same when defaults in its tables are left out. -/
theorem Draft.same_stored (valid : s.Valid) (d : Draft) (sound : d.Sound s) (type : FieldType) :
    ((d.stored s false).json s type).same (d.json s type) := by
  match d with
  | .scalar v =>
    rw [Draft.stored, Draft.json]
    exact Schema.same_scalarJson_self _ v
  | .struct values =>
    rw [Draft.stored, Draft.json]
    cases TableArgs.structOf? s type with
    | none => rfl
    | some d => exact same_structJson d values
  | .string text =>
    rw [Draft.stored, Draft.json]
    simp [Json.same]
  | .scalars t items =>
    rw [Draft.stored, Draft.json, Json.same, Json.sameItems_iff]
    refine List.forall₂_same.mpr fun j member => ?_
    obtain ⟨v, _, rfl⟩ := List.mem_map.mp member
    exact Schema.same_scalarJson_self _ v
  | .strings texts =>
    rw [Draft.stored, Draft.json, Json.same, Json.sameItems_iff]
    refine List.forall₂_same.mpr fun j member => ?_
    obtain ⟨text, _, rfl⟩ := List.mem_map.mp member
    simp [Json.same]
  | .table t =>
    cases sound with
    | table sound =>
      rw [Draft.stored, Draft.json, Draft.json]
      exact TableDraft.same_stored valid t sound
  | .tables items =>
    cases sound with
    | tables each =>
      rw [Draft.stored, Draft.json, Draft.json, Json.same]
      exact TableDraft.same_storedEach valid items each

/-- A table is the same when defaults in it, and in the tables below it, are left out. -/
theorem TableDraft.same_stored (valid : s.Valid) (t : TableDraft) (sound : t.Sound s) :
    ((t.stored s false).json s).same (t.json s) := by
  match t with
  | .mk id fields =>
    cases sound with
    | mk known ordered typed each =>
      exact TableDraft.same_of_each valid (.mk known ordered typed each)
        (Draft.same_storedEach valid fields each)

theorem Draft.same_storedEach (valid : s.Valid) (fields : List (Nat × Draft))
    (sound : ∀ e ∈ fields, e.2.Sound s) :
    ∀ e ∈ fields, ∀ type, ((e.2.stored s false).json s type).same (e.2.json s type) := by
  match fields with
  | [] => simp
  | (i, d) :: rest =>
    obtain ⟨here, later⟩ := List.forall_mem_cons.mp sound
    exact List.forall_mem_cons.mpr
      ⟨Draft.same_stored valid d here, Draft.same_storedEach valid rest later⟩

theorem TableDraft.same_storedEach (valid : s.Valid) (items : List TableDraft)
    (sound : ∀ t ∈ items, t.Sound s) :
    Json.sameItems (TableDraft.jsonEach s (TableDraft.storedEach s false items))
      (TableDraft.jsonEach s items) := by
  match items with
  | [] => rfl
  | t :: rest =>
    obtain ⟨here, later⟩ := List.forall_mem_cons.mp sound
    rw [TableDraft.storedEach, TableDraft.jsonEach, TableDraft.jsonEach, Json.sameItems,
      Bool.and_eq_true]
    exact ⟨TableDraft.same_stored valid t here, TableDraft.same_storedEach valid rest later⟩

end
end

/-! ### Tables in it -/

namespace Schema
variable {s : Schema}

mutual

/-- JSON that is the same holds as many tables, and nests them as deep. -/
theorem tablesIn_same (c : Tally) (type : FieldType) (j k : Json) (same : j.same k) :
    s.tablesIn c type j = s.tablesIn c type k := by
  match j, k, same with
  | .object members, .object members', same =>
    rw [Json.same] at same
    simp only [tablesIn]
    cases type with
    | table id =>
      dsimp only
      rw [tablesInMembers_same c id members members' same]
    | scalar t | enum id | string | struct id | vector e => rfl
  | .array items, .array items', same =>
    rw [Json.same] at same
    simp only [tablesIn]
    cases type with
    | vector e =>
      cases e with
      | table id => exact tablesInItems_same c id items items' same
      | scalar t | enum id | string => rfl
    | scalar t | enum id | string | struct id | table id => rfl
  | .null, .null, _ | .bool _, .bool _, _ | .integer _, .integer _, _ | .real _, .real _, _
  | .string _, .string _, _ => simp only [tablesIn]

theorem tablesInItems_same (c : Tally) (id : Nat) (items items' : List Json)
    (same : Json.sameItems items items') : s.tablesInItems c id items = s.tablesInItems c id items' := by
  match items, items', same with
  | [], [], _ => rfl
  | j :: js, k :: ks, same =>
    rw [Json.sameItems, Bool.and_eq_true] at same
    rw [tablesInItems, tablesInItems, tablesIn_same c _ j k same.1, tablesInItems_same c id js ks same.2]

theorem tablesInMembers_same (c : Tally) (id : Nat) (members members' : List (String × Json))
    (same : Json.sameMembers members members') :
    s.tablesInMembers c id members = s.tablesInMembers c id members' := by
  match members, members', same with
  | [], [], _ => rfl
  | (name, j) :: js, (name', k) :: ks, same =>
    rw [Json.sameMembers, Bool.and_eq_true, Bool.and_eq_true, beq_iff_eq] at same
    obtain ⟨⟨rfl, first⟩, rest⟩ := same
    rw [tablesInMembers, tablesInMembers, tablesIn_same c _ j k first,
      tablesInMembers_same c id js ks rest]

end

/-- Whatever bytes are accepted, what they are shown as is built, unless it is too large: into a buffer that
is accepted again and shown the same. -/
theorem bufferOfJson_of_verify {b : Buffer} {root : Root} (valid : s.validate = .ok ())
    (unscoped : s.Unscoped) (accepted : Verifier.verify ⟨s, .standard, none, none⟩ b = .ok root)
    (finite : s.FloatsFinite ⟨b, root.position⟩ root.table) :
    (∃ e, s.bufferOfJson (s.tableJson ⟨b, root.position⟩ root.table) = .error e ∧ e.IsLimit) ∨
      ∃ b' root', s.bufferOfJson (s.tableJson ⟨b, root.position⟩ root.table) = .ok b' ∧
        Verifier.verify ⟨s, .standard, none, none⟩ b' = .ok root' ∧ root'.table = root.table ∧
        (s.tableJson ⟨b', root'.position⟩ root'.table).same
          (s.tableJson ⟨b, root.position⟩ root.table) := by
  have valid := valid_of_validate valid
  obtain ⟨_, isRoot, _, wellFormed, shallow, few⟩ := Verifier.verify_eq_ok_iff.mp accepted
  have below (c : Tally) := tablesIn_tableJsonWithin_le valid c (b.size - root.position + 1)
    ⟨b, root.position⟩ root.table
  obtain ⟨d, same, sound, finite, shown⟩ := wellFormed.exists_mirror valid finite
  obtain ⟨_, t, read, stored⟩ := d.reread valid unscoped sound finite
  have sound' := sound_of_draftTable? s _ (TableDraft.sorted_json _) read
  change s.rootTable? = some root.table at isRoot
  change d.json s = s.tableJson ⟨b, root.position⟩ root.table at shown
  rw [same] at read
  rw [← shown, bufferOfJson_eq isRoot read]
  rcases buffer_cases valid sound' with limited | ⟨b', position, built, holds⟩
  · exact .inl limited
  · rw [stored] at holds
    obtain ⟨_, shown', small, _, verdict⟩ := holds
    rw [TableDraft.id_stored, same] at shown' verdict
    have alike := d.same_stored valid sound
    refine .inr ⟨b', ⟨position, root.table⟩, built, ?_, rfl, by rw [shown']; exact alike⟩
    refine (verdict ⟨s, .standard, none, none⟩ rfl isRoot (.inl rfl) small).mpr ?_
    rw [tablesIn_same _ _ _ _ alike, tablesIn_same _ _ _ _ alike, shown]
    exact ⟨Nat.le_trans (below .max) shallow, Nat.le_trans (below .sum) few⟩

theorem tableJson_of_sorted {t : TableView} {id : Nat} {d : TableDef}
    {members : List (String × Json)} (found : s.tables[id]? = some d)
    (all : d.fields.toList.zipIdx.filterMap (s.memberJson? s.tableJson t id) = members)
    (sorted : (members.map Prod.fst).Pairwise (· < ·)) : s.tableJson t id = .object members := by
  rw [tableJson_eq, membersJson_eq found, all, Json.ofMembers_of_sorted sorted]

/-- A thing in a color without a name, with its default weight stored, and with two parts that are one
table. -/
def twins : Buffer := #[
  16, 0, 0, 0, 12, 0, 20, 0, 16, 0, 0, 0, 4, 0, 8, 0, 12, 0, 0, 0, 16, 0, 0, 0,
  0, 0, 0, 0, 0, 0, 0, 0, 7, 0, 0, 0, 2, 0, 0, 0, 12, 0, 0, 0, 8, 0, 0, 0, 4, 0, 4, 0, 4, 0, 0, 0]

private theorem tableJson_twin :
    things.tableJson ⟨twins, 52⟩ 0 = .object [("color", .string "Red"), ("weight", .real 0)] :=
  tableJson_of_sorted rfl rfl (by decide)

private theorem tableJson_twins :
    things.tableJson ⟨twins, 16⟩ 0 = .object [("color", .integer 7),
      ("parts", .array [things.tableJson ⟨twins, 52⟩ 0, things.tableJson ⟨twins, 52⟩ 0]),
      ("weight", .real 0)] :=
  tableJson_of_sorted rfl rfl (by decide)

theorem twins_survive :
    things.validate = .ok () ∧ things.Unscoped ∧
      Verifier.verify ⟨things, .standard, none, none⟩ twins = .ok ⟨16, 0⟩ ∧
      things.FloatsFinite ⟨twins, 16⟩ 0 ∧
      ∃ b root, things.bufferOfJson (things.tableJson ⟨twins, 16⟩ 0) = .ok b ∧
        Verifier.verify ⟨things, .standard, none, none⟩ b = .ok root ∧ root.table = 0 ∧
        (things.tableJson ⟨b, root.position⟩ root.table).same (things.tableJson ⟨twins, 16⟩ 0) := by
  have unscoped : things.Unscoped := by
    unfold things Unscoped
    decide +kernel
  have accepted : Verifier.verify ⟨things, .standard, none, none⟩ twins = .ok ⟨16, 0⟩ := rfl
  have finite : things.FloatsFinite ⟨twins, 16⟩ 0 := by
    refine .of_nested (by decide +kernel) fun n member => ?_
    have member : n ∈ [(52, 0), (52, 0)] := member
    obtain rfl : n = (52, 0) := by simpa using member
    exact .of_nested (by decide +kernel) fun n member => absurd member List.not_mem_nil
  have isSome : (things.bufferOfJson (things.tableJson ⟨twins, 16⟩ 0)).toOption.isSome := by
    rw [tableJson_twins, tableJson_twin]
    decide +kernel
  refine ⟨rfl, unscoped, accepted, finite, ?_⟩
  rcases bufferOfJson_of_verify rfl unscoped accepted finite with ⟨e, failed, _⟩ | built
  · simp [failed, Except.toOption] at isSome
  · exact built

end Schema

end FlatTable

import FlatTable.Proofs.Convert.Buffers
import FlatTable.Proofs.Convert.Reread
import FlatTable.Proofs.Convert.RoundTrip

/-! One buffer for all JSON that comes to the same: a buffer that was built from JSON is built again, byte
for byte, from what it is shown as. -/
namespace FlatTable
open Build Builder

namespace TableArgs
variable {s : Schema} {a : TableArgs} {i : Nat} {f : FieldDef} {x : Setting}

theorem Fits.set (fits : a.Fits s) (field : s.field? a.table i = some f)
    (live : f.deprecated = false) (holds : x.Fits s f.type) : (a.set i x).Fits s := by
  obtain ⟨t, known, size⟩ := fits.table
  refine ⟨fits.schema, ⟨t, known, by simp [TableArgs.set, size]⟩, fun j y set => ?_⟩
  simp only [TableArgs.set, Array.getElem?_setIfInBounds] at set
  split at set
  · rename_i same
    subst same
    split at set
    · obtain rfl := Option.some.inj (Option.some.inj set)
      exact ⟨f, field, live, holds⟩
    · cases set
  · exact fits.setting j y set

/-- Arguments that are stored alike make the same table where defaults are not forced. -/
theorem runFrom_createTable_congr (valid : s.Valid) {a' : TableArgs} (fits : a.Fits s)
    (fits' : a'.Fits s) (same : a.sparse = a'.sparse) {b : Builder} (sound : b.Sound)
    (unforced : b.forceDefaults = false) :
    runFrom b (createTable a) = runFrom b (createTable a') := by
  rw [← runFrom_createTable_sparse valid.filled fits sound unforced, same,
    runFrom_createTable_sparse valid.filled fits' sound unforced]

end TableArgs

namespace Construction
variable {s : Schema} {x : Construction}

mutual

/-- Placing what a field refers to is placing what is stored of it. -/
theorem runFrom_setting_stored (valid : s.Valid) (d : Draft) {x : Construction} (firm : x.Firm s)
    (unforced : x.builder.forceDefaults = false) (sound : d.Sound s) :
    runFrom x.builder (d.setting s) = runFrom x.builder ((d.stored s false).setting s) := by
  match d with
  | .scalar v | .struct values | .string text | .scalars t items | .strings texts =>
    rw [Draft.stored]
  | .table t =>
    cases sound with
    | table sound =>
      rw [Draft.stored, Draft.setting, Draft.setting]
      exact runFrom_bind_congr (runFrom_build_stored valid t firm unforced sound) fun _ _ _ => rfl
  | .tables items =>
    cases sound with
    | tables each =>
      rw [Draft.stored, Draft.setting, Draft.setting]
      exact runFrom_bind_congr (runFrom_buildEach_stored valid items firm unforced each)
        fun _ _ _ => rfl

/-- Building a table is building what is stored of it. -/
theorem runFrom_build_stored (valid : s.Valid) (t : TableDraft) {x : Construction}
    (firm : x.Firm s) (unforced : x.builder.forceDefaults = false) (sound : t.Sound s) :
    runFrom x.builder (t.build s) = runFrom x.builder ((t.stored s false).build s) := by
  match t with
  | .mk id fields =>
    cases sound with
    | mk known ordered typed each =>
      have fits : (TableArgs.blank s id).Fits s :=
        (TableArgs.blank_holds x.history known).fits (by simp [TableArgs.Typed])
      rw [TableDraft.stored, TableDraft.build, TableDraft.build]
      exact runFrom_setEach_stored valid fields firm unforced ordered.nodup typed each fits fits rfl
        rfl fun e _ y set => by simp [TableArgs.blank, Array.getElem?_replicate] at set

/-- Setting fields comes to the same table when those that are left out are passed over. -/
theorem runFrom_setEach_stored (valid : s.Valid) (fields : List (Nat × Draft)) {x : Construction}
    (firm : x.Firm s) (unforced : x.builder.forceDefaults = false) {id : Nat}
    (distinct : (fields.map Prod.fst).Nodup) (typed : TableArgs.Typed s id fields)
    (each : ∀ e ∈ fields, e.2.Sound s) {a a' : TableArgs} (fits : a.Fits s) (fits' : a'.Fits s)
    (table : a.table = id) (same : a.sparse = a'.sparse)
    (unset : ∀ e ∈ fields, ∀ y, a.settings[e.1]? ≠ some (some y)) :
    runFrom x.builder (Draft.setEach s fields a >>= createTable) =
      runFrom x.builder (Draft.setEach s (Draft.storedEach s false id fields) a' >>= createTable) := by
  match fields with
  | [] =>
    rw [Draft.storedEach, Draft.setEach, Draft.setEach, pure_bind, pure_bind]
    exact TableArgs.runFrom_createTable_congr valid fits fits' same firm.builder unforced
  | (i, d) :: rest =>
    obtain ⟨⟨f, field, live, hasType⟩, typed'⟩ := List.forall_mem_cons.mp typed
    obtain ⟨sound, each'⟩ := List.forall_mem_cons.mp each
    obtain ⟨here, unset'⟩ := List.forall_mem_cons.mp unset
    obtain ⟨new, others⟩ := List.nodup_cons.mp distinct
    have table' : a'.table = id := (congrArg TableArgs.table same).symm.trans table
    -- The fields that follow are other ones.
    have later (y : Setting) (e : Nat × Draft) (member : e ∈ rest) (z : Setting) :
        (a.set i y).settings[e.1]? ≠ some (some z) := by
      have other : i ≠ e.1 := fun again => new (List.mem_map.mpr ⟨e, member, again.symm⟩)
      simpa [TableArgs.set, Array.getElem?_setIfInBounds, other] using unset' e member z
    rw [Draft.storedEach, Draft.setEach, bind_assoc]
    split
    · rename_i omitted
      cases d with
      | scalar v =>
        have omits : TableArgs.omits a.schema a.table i (.scalar v) := by
          rw [fits.schema, table]
          simpa [Draft.omitted, TableArgs.omits] using omitted
        rw [Draft.setting, pure_bind]
        exact runFrom_setEach_stored valid rest firm unforced others typed' each'
          (fits.set (table ▸ field) live hasType) fits' table
          ((TableArgs.sparse_set_of_omits omits here).trans same) (later _)
      | struct values | string text | scalars t items | strings texts | table t | tables items =>
        simp [Draft.omitted] at omitted
    · rw [Draft.setEach, bind_assoc]
      refine runFrom_bind_congr (runFrom_setting_stored valid d firm unforced sound)
        fun y b' ran => ?_
      obtain ⟨h, continues, made⟩ := (setting_builds valid d firm sound).of_ok ran
      have holds := made.fits (Draft.hasType_stored hasType)
      exact runFrom_setEach_stored valid rest continues.firm
        (continues.follows.forceDefaults.trans unforced) others typed' each'
        (fits.set (table ▸ field) live holds) (fits'.set (table' ▸ field) live holds) table
        (TableArgs.sparse_set same i y) (later y)

theorem runFrom_buildEach_stored (valid : s.Valid) (items : List TableDraft) {x : Construction}
    (firm : x.Firm s) (unforced : x.builder.forceDefaults = false) (each : ∀ t ∈ items, t.Sound s) :
    runFrom x.builder (TableDraft.buildEach s items) =
      runFrom x.builder (TableDraft.buildEach s (TableDraft.storedEach s false items)) := by
  match items with
  | [] => rw [TableDraft.storedEach]
  | t :: rest =>
    obtain ⟨sound, each⟩ := List.forall_mem_cons.mp each
    rw [TableDraft.storedEach, TableDraft.buildEach, TableDraft.buildEach]
    refine runFrom_bind_congr (runFrom_build_stored valid t firm unforced sound) fun r b' ran => ?_
    obtain ⟨h, continues, _⟩ := (build_builds valid t firm sound.settable).of_ok ran
    exact runFrom_bind_congr (runFrom_buildEach_stored valid rest continues.firm
      (continues.follows.forceDefaults.trans unforced) each) fun _ _ _ => rfl

end

end Construction

namespace Schema
variable {s : Schema} {json : Json} {b : Buffer}

/-- Drafts of which the same is stored are built into the same buffer. -/
theorem buffer_stored (valid : s.Valid) {t : TableDraft} (sound : t.Sound s) :
    t.buffer s = (t.stored s false).buffer s := by
  have start : Builder.withCapacity 0 = (Construction.start (.zeros 0 .standard)).builder := rfl
  have steps := Construction.runFrom_build_stored valid t
    (Construction.start_firm s (.zeros 0 .standard)) rfl sound
  unfold TableDraft.buffer
  dsimp only
  rw [start, runFrom_bind_congr steps fun _ _ _ => rfl]

/-- A buffer that is built from JSON is built again from what it is shown as, byte for byte. Every
verifier shows it that allows as many tables as there are in it and as deep as they nest. -/
theorem bufferOfJson_tableJson (valid : s.validate = .ok ()) (unscoped : s.Unscoped)
    (sorted : json.Sorted) (built : s.bufferOfJson json = .ok b) :
    ∃ root position, s.rootTable? = some root ∧ b.rootPosition? = some position ∧
      (∀ v : Verifier, v.schema = s → v.root? = some root → v.identifier = none →
        b.size ≤ v.options.maxBufferSize →
        (v.verify b = .ok ⟨position, root⟩ ↔
          s.tablesIn .max (.table root) (s.tableJson ⟨b, position⟩ root) ≤ v.options.maxDepth ∧
          s.tablesIn .sum (.table root) (s.tableJson ⟨b, position⟩ root) ≤ v.options.maxTables)) ∧
      (s.FloatsFinite ⟨b, position⟩ root →
        s.bufferOfJson (s.tableJson ⟨b, position⟩ root) = .ok b) := by
  have valid := valid_of_validate valid
  obtain ⟨root, t, isRoot, read, built⟩ := exists_draft_of_bufferOfJson built
  obtain rfl := id_of_draftTable? read
  have sound := sound_of_draftTable? s json sorted read
  rcases buffer_cases valid sound with ⟨e, failed, _⟩ | ⟨b', position, built', holds⟩
  · cases failed.symm.trans built
  obtain rfl : b = b' := Except.ok.inj (built.symm.trans built')
  obtain ⟨place, shown, _, finite, verdict⟩ := holds
  rw [TableDraft.id_stored] at shown finite verdict
  refine ⟨t.id, position, isRoot, place, fun v schema known asked small => ?_, fun floats => ?_⟩
  · rw [shown]
    exact verdict v schema known (.inl asked) small
  · obtain ⟨_, t', read', same⟩ :=
      (t.stored s false).reread valid unscoped sound.stored (finite floats)
    rw [TableDraft.id_stored] at read'
    have sound' := sound_of_draftTable? s _ (TableDraft.sorted_json _) read'
    rw [shown, bufferOfJson_eq isRoot read', buffer_stored valid sound', same,
      ← buffer_stored valid sound.stored, ← buffer_stored valid sound, built]

/-- A blue thing with one part: of a thing nothing is stored that is the default. -/
def thingBytes : Buffer := #[
  16, 0, 0, 0, 0, 0, 10, 0, 12, 0, 7, 0, 0, 0, 8, 0, 10, 0, 0, 0, 0, 0, 0, 1, 4, 0, 0, 0,
  1, 0, 0, 0, 8, 0, 0, 0, 4, 0, 4, 0, 4, 0, 0, 0]

theorem thing_canonical :
    things.validate = .ok () ∧ things.Unscoped ∧ thing.Sorted ∧
      things.bufferOfJson thing = .ok thingBytes ∧ things.FloatsFinite ⟨thingBytes, 16⟩ 0 ∧
      things.bufferOfJson (things.tableJson ⟨thingBytes, 16⟩ 0) = .ok thingBytes := by
  have unscoped : things.Unscoped := by
    unfold things Unscoped
    decide +kernel
  have sorted : thing.Sorted := by
    simp only [thing, Json.Sorted, Json.SortedMembers, Json.SortedItems, List.map_cons, List.map_nil,
      List.Pairwise.nil, and_true]
    decide
  have built : things.bufferOfJson thing = .ok thingBytes :=
    toOption_eq_some_iff.mp (by decide +kernel)
  have finite : things.FloatsFinite ⟨thingBytes, 16⟩ 0 := by
    refine .of_nested (by decide +kernel) fun n member => ?_
    obtain rfl := List.mem_singleton.mp (show n ∈ [(40, 0)] from member)
    exact .of_nested (by decide +kernel) fun n member => absurd member List.not_mem_nil
  obtain ⟨root, position, isRoot, place, _, again⟩ :=
    bufferOfJson_tableJson rfl unscoped sorted built
  obtain rfl : 0 = root := Option.some.inj isRoot
  obtain rfl : 16 = position := Option.some.inj place
  exact ⟨rfl, unscoped, sorted, built, finite, again finite⟩

end Schema
end FlatTable

import FlatTable.Proofs.Convert.Omitted
import FlatTable.Proofs.Convert.Survives
import FlatTable.Proofs.Script.Failures

/-! Whether a builder forces defaults cannot be told from what is read afterwards, but for zeros that lose
their sign: two runs of one script, on different storages. -/
namespace FlatTable
open Build Builder

/-! ### Nothing is left out -/

section
variable {s : Schema}

mutual

/-- Of a draft that is stored with its defaults nothing is left out. -/
theorem Draft.stored_forced (d : Draft) : d.stored s true = d := by
  match d with
  | .scalar v | .struct values | .string text | .scalars t items | .strings texts => rw [Draft.stored]
  | .table t => rw [Draft.stored, TableDraft.stored_forced t]
  | .tables items => rw [Draft.stored, TableDraft.storedEach_forced items]

theorem TableDraft.stored_forced (t : TableDraft) : t.stored s true = t := by
  match t with
  | .mk id fields => rw [TableDraft.stored, Draft.storedEach_forced id fields]

theorem Draft.storedEach_forced (id : Nat) (fields : List (Nat × Draft)) :
    Draft.storedEach s true id fields = fields := by
  match fields with
  | [] => rw [Draft.storedEach]
  | (i, d) :: rest =>
    rw [Draft.storedEach, Draft.stored_forced d, Draft.storedEach_forced id rest]
    rfl

theorem TableDraft.storedEach_forced (items : List TableDraft) :
    TableDraft.storedEach s true items = items := by
  match items with
  | [] => rw [TableDraft.storedEach]
  | t :: rest =>
    rw [TableDraft.storedEach, TableDraft.stored_forced t, TableDraft.storedEach_forced rest]

end

theorem Draft.kept_forced (id : Nat) (fields : List (Nat × Draft)) : Draft.kept s true id fields = fields :=
  List.filter_eq_self.mpr fun _ _ => rfl

/-- The fields may be set to what is stored of a draft where they may be set to the draft. -/
theorem Draft.hasType_stored_iff {forced : Bool} {type : FieldType} {d : Draft} :
    (d.stored s forced).HasType s type ↔ d.HasType s type := by
  refine ⟨fun hasType => ?_, Draft.hasType_stored⟩
  cases d with
  | table t =>
    rw [Draft.stored, Draft.HasType, TableDraft.id_stored] at hasType
    exact hasType
  | tables items =>
    rw [Draft.stored, TableDraft.storedEach_eq] at hasType
    obtain ⟨id, isVector, same⟩ := hasType
    refine ⟨id, isVector, fun t member => ?_⟩
    rw [← @TableDraft.id_stored s forced]
    exact same _ (List.mem_map_of_mem member)
  | scalar v | struct values | string text | scalars t items | strings texts =>
    rw [Draft.stored] at hasType
    exact hasType

theorem Draft.text?_stored (d : Draft) : (d.stored s false).text? = d.text? := by
  cases d <;> rw [Draft.stored] <;> rfl

theorem Draft.table?_stored (d : Draft) :
    (d.stored s false).table? = d.table?.map (TableDraft.stored s false) := by
  cases d <;> rw [Draft.stored] <;> rfl

def Schema.sparse (s : Schema) (e : Nat × Draft) : Nat × Draft := (e.1, e.2.stored s false)

theorem Schema.asked?_stored (id : Nat) (name : String) (d : Draft) :
    s.asked? id name (d.stored s false) = (s.asked? id name d).map s.sparse := by
  rw [Schema.asked?, Schema.asked?, Option.map_bind]
  refine Option.bind_congr fun field _ => ?_
  simp only [Function.comp_apply, Draft.hasType_stored_iff]
  split <;> rfl

theorem Schema.settled_stored (id : Nat) (asked : List (Nat × Draft)) :
    s.settled id (asked.map s.sparse) = (s.settled id asked).map s.sparse := by
  have lookup (i : Nat) (l : List (Nat × Draft)) :
      (l.map s.sparse).lookup i = (l.lookup i).map (Draft.stored s false) := by
    induction l with
    | nil => rfl
    | cons e l ih =>
      rw [List.map_cons, List.lookup_cons, List.lookup_cons, ih]
      change (match i == e.1 with | true => _ | false => _) = _
      cases i == e.1 <;> rfl
  rw [Schema.settled, Schema.settled, List.map_filterMap]
  refine List.filterMap_congr fun i _ => ?_
  rw [← List.map_reverse, lookup, Option.map_map, Option.map_map]
  rfl

end

namespace Script

/-! ### What a script means without forced defaults -/

section
variable {s : Schema}

def sparseEach (s : Schema) (drafts : List (Option Draft)) : List (Option Draft) :=
  drafts.map (Option.map (Draft.stored s false))

theorem Source.draft?_sparse (source : Source) (drafts : List (Option Draft)) :
    source.draft? (sparseEach s drafts) = (source.draft? drafts).map (Draft.stored s false) := by
  cases source with
  | foreign p => rfl
  | call number =>
    rw [Source.draft?, Source.draft?, sparseEach, List.getElem?_map]
    cases drafts[number]? with
    | none => rfl
    | some d => rfl

theorem Entry.draft?_sparse (e : Entry) (id : Nat) (drafts : List (Option Draft)) :
    e.draft? s id (sparseEach s drafts) = (e.draft? s id drafts).map s.sparse := by
  have flat {d : Draft} (name : String) (same : d.stored s false = d) :
      s.asked? id name d = (s.asked? id name d).map s.sparse := by
    rw [← Schema.asked?_stored, same]
  cases e with
  | scalar name v => exact flat name (by rw [Draft.stored])
  | struct name values => exact flat name (by rw [Draft.stored])
  | reference name source =>
    rw [Entry.draft?, Entry.draft?, Source.draft?_sparse, Option.bind_map, Option.map_bind]
    exact Option.bind_congr fun d _ => Schema.asked?_stored id name d

/-- A call means the same without forced defaults, but for those that are left out. -/
theorem Call.draft?_sparse {c : Call} (steady : ∀ on, c ≠ .force on) (drafts : List (Option Draft)) :
    c.draft? s false (sparseEach s drafts) = (c.draft? s true drafts).map (Draft.stored s false) := by
  cases c with
  | string text | vector t items =>
    rw [Call.draft?, Call.draft?, Option.map_some, Draft.stored]
  | strings items =>
    have each (item : Source) : (item.draft? (sparseEach s drafts)).bind Draft.text? =
        (item.draft? drafts).bind Draft.text? := by
      rw [Source.draft?_sparse, Option.bind_map]
      exact Option.bind_congr fun d _ => d.text?_stored
    simp only [Call.draft?, each]
    rw [Option.map_map]
    refine Option.map_congr fun texts _ => ?_
    rw [Function.comp_apply, Draft.stored]
  | tables items =>
    have each (item : Source) : (item.draft? (sparseEach s drafts)).bind Draft.table? =
        ((item.draft? drafts).bind Draft.table?).map (TableDraft.stored s false) := by
      rw [Source.draft?_sparse, Option.bind_map, Option.map_bind]
      exact Option.bind_congr fun d _ => d.table?_stored
    simp only [Call.draft?, each]
    rw [mapM_map_right, Option.map_map, Option.map_map]
    refine Option.map_congr fun items _ => ?_
    rw [Function.comp_apply, Function.comp_apply, Draft.stored, TableDraft.storedEach_eq]
  | table id entries =>
    have asked : entries.filterMap (Entry.draft? s id (sparseEach s drafts)) =
        (entries.filterMap (Entry.draft? s id drafts)).map s.sparse := by
      rw [List.map_filterMap]
      exact List.filterMap_congr fun e _ => e.draft?_sparse id drafts
    rw [Call.draft?, Call.draft?, asked, Schema.settled_stored, Option.map_some, Draft.stored,
      TableDraft.stored, Draft.storedEach_eq_kept, Draft.kept_forced]
    rfl
  | json id value =>
    rw [Call.draft?, Call.draft?, Option.map_map]
    refine Option.map_congr fun t _ => ?_
    rw [Function.comp_apply, TableDraft.stored_forced, Draft.stored]
  | force on => exact absurd rfl (steady on)
  | skip => rfl

/-- A script means the same without forced defaults, but for those that are left out. -/
theorem Meaning.play_sparse (script : List Call) (steady : ∀ c ∈ script, ∀ on, c ≠ .force on)
    (drafts : List (Option Draft)) :
    (Meaning.play s ⟨false, sparseEach s drafts⟩ script).drafts =
      sparseEach s (Meaning.play s ⟨true, drafts⟩ script).drafts := by
  induction script generalizing drafts with
  | nil => rfl
  | cons c script ih =>
    obtain ⟨here, later⟩ := List.forall_mem_cons.mp steady
    have call (forced : Bool) (drafts : List (Option Draft)) :
        Meaning.call s ⟨forced, drafts⟩ c = ⟨forced, drafts ++ [c.draft? s forced drafts]⟩ := by
      cases c with
      | force on => exact absurd rfl (here on)
      | string text | vector t items | strings items | tables items | table id entries | json id value
      | skip => rfl
    have next : sparseEach s drafts ++ [c.draft? s false (sparseEach s drafts)] =
        sparseEach s (drafts ++ [c.draft? s true drafts]) := by
      rw [Call.draft?_sparse here, sparseEach, sparseEach, List.map_append]
      rfl
    rw [Meaning.play, Meaning.play, List.foldl_cons, List.foldl_cons, call, call, next]
    exact ih later _

end

/-! ### What is read -/

def State.set (storage : Storage) (forced : Bool) : State :=
  ⟨{ Builder.ofStorage storage with forceDefaults := forced }, []⟩

/-- The second of two buffers holds at its root, as the table `id`, what the first one holds, without
scalars that are equal to their default: it is accepted as the first one is, and reads the same, but for
floating-point numbers that are equal to their default and not the same. -/
structure Thins (s : Schema) (identifier : Option Identifier) (id : Nat) (root root' : TableView) : Prop where
  place : root.buffer.rootPosition? = some root.position
  place' : root'.buffer.rootPosition? = some root'.position
  small : root.buffer.size ≤ Layout.maxBufferSize
  small' : root'.buffer.size ≤ Layout.maxBufferSize
  verdict : ∀ v : Verifier, v.schema = s → v.root? = some id → v.identifier = none ∨ identifier ≠ none →
    (root.buffer.size ≤ v.options.maxBufferSize ↔ root'.buffer.size ≤ v.options.maxBufferSize) →
      (v.verify root.buffer = .ok ⟨root.position, id⟩ ↔ v.verify root'.buffer = .ok ⟨root'.position, id⟩)
  right : ∀ t table, s.Reached root id t table → ∃ u, s.Beside root root' id t u table
  left : ∀ u table, s.Reached root' id u table → ∃ t, s.Beside root root' id t u table
  reads : s.Simulates (s.Beside root root' id)
  stores : s.OmitsScalars (s.Beside root root' id)
  shown : (s.tableJson root' id).same (s.tableJson root id)
  identical : (∀ t table, s.Reached root id t table → ∀ i v d, t.field s table i = .scalar v →
    s.fieldDefault? table i = some d → d.numEq v → d = v) → s.tableJson root' id = s.tableJson root id

section
variable {s : Schema} {b b' : Builder} {h h' : History} {identifier : Option Identifier}

/-- Of finished buffers whose roots hold the same the one without defaults thins the other one. -/
private theorem thins_of_made (valid : s.Valid) (built : b.Built s h) (complete : b.Complete h)
    (built' : b'.Built s h') (complete' : b'.Complete h') {t : TableDraft} {r r' : Nat} (sound : t.Sound s)
    (made : t.Made h r) (made' : (t.stored s false).Made h' r')
    (delivers : b.finished.data.Delivers s identifier (b.positionOf r) t)
    (delivers' : b'.finished.data.Delivers s identifier (b'.positionOf r') (t.stored s false)) :
    Thins s identifier t.id ⟨b.finished.data, b.positionOf r⟩ ⟨b'.finished.data, b'.positionOf r'⟩ := by
  have roots : Thinned s b h b' h' ⟨b.finished.data, b.positionOf r⟩
      ⟨b'.finished.data, b'.positionOf r'⟩ t.id := .mk sound made made'
  have simulates := thinned_simulates valid built complete built' complete'
  have alike := t.same_stored valid sound
  have shown' := delivers'.shown
  rw [TableDraft.id_stored] at shown'
  exact {
    place := delivers.place
    place' := delivers'.place
    small := delivers.small
    small' := delivers'.small
    verdict := fun v => delivers.verify_iff delivers' (TableDraft.id_stored t) fun c =>
      Schema.tablesIn_same c _ _ _ alike
    right := fun u table => simulates.exists_right roots
    left := fun u table => simulates.exists_left roots
    reads := simulates.beside roots
    stores := fun t u table beside => thinned_omits valid built complete built' complete' t u table
      (simulates.related roots beside)
    shown := by rwa [shown', delivers.shown]
    identical := fun exact => ((simulates.beside roots).tableJson_eq
      (fun t _ table beside => exact t table beside.reached) .root).symm }

end

/-- It cannot be told from what is read whether defaults have been forced, but for zeros that are the default
with the other sign: a script on a builder that forces defaults and on one that does not. -/
theorem finish_unforced {s : Schema} (validated : s.validate = .ok ()) (script : List Call)
    (storage storage' : Storage) (proper : ∀ c ∈ script, c.Proper s script)
    (steady : ∀ c ∈ script, ∀ on, c ≠ .force on) (root : Source) (own : root.Own) (r r' : Nat)
    (identifier : Option Identifier) (f f' : FinishedBuffer)
    (given : root.offset? ((State.set storage true).play s script).answers = some ⟨r, .table⟩)
    (given' : root.offset? ((State.set storage' false).play s script).answers = some ⟨r', .table⟩)
    (finished : ((State.set storage true).play s script).finish ⟨r⟩ identifier = .ok f)
    (finished' : ((State.set storage' false).play s script).finish ⟨r'⟩ identifier = .ok f') :
    ∃ id position position', root.table? script = some id ∧
      Thins s identifier id ⟨f.data, position⟩ ⟨f'.data, position'⟩ := by
  have valid := Schema.valid_of_validate validated
  have declared (forced : Bool) : Meaning.Declared script ⟨forced, []⟩ :=
    ⟨(Meaning.start_declared script).table, (Meaning.start_declared script).tables⟩
  obtain ⟨h, means, declared'⟩ :=
    ((State.start_means s storage).force true).play valid proper script (declared true) rfl
  obtain ⟨h', means', _⟩ :=
    ((State.start_means s storage').force false).play valid proper script (declared false) rfl
  obtain ⟨t, drafted, sound, made⟩ := means.exists_table own given
  obtain ⟨t', drafted', _, made'⟩ := means'.exists_table own given'
  obtain rfl : t.stored s false = t' := by
    have sparse := Meaning.play_sparse (s := s) script steady []
    change root.draft? (Meaning.play s ⟨false, sparseEach s []⟩ script).drafts = _ at drafted'
    change root.draft? (Meaning.play s ⟨true, []⟩ script).drafts = _ at drafted
    rw [sparse, Source.draft?_sparse, drafted, Option.map_some, Draft.stored] at drafted'
    exact Draft.table.inj (Option.some.inj drafted')
  obtain ⟨b, ran⟩ := State.exists_of_finish finished
  obtain ⟨b', ran'⟩ := State.exists_of_finish finished'
  have delivers := means.firm.finish_of_made valid sound made ran
  have delivers' := means'.firm.finish_of_made valid sound.stored made' ran'
  obtain ⟨rfl, built, complete, _⟩ := means.firm.finish ran
  obtain ⟨rfl, built', complete', _⟩ := means'.firm.finish ran'
  exact ⟨t.id, _, _, declared'.table root t drafted,
    thins_of_made valid built complete built' complete' sound made made' delivers delivers'⟩

/-! ### Scripts -/

def marks : Schema where
  nameSpace := ""
  attributes := []
  enums := #[]
  structs := #[]
  tables := #[⟨"Mark", #[.plain "label" .string,
    { FieldDef.plain "size" (.scalar .int) with declared := some (ScalarType.int.value 3) },
    .plain "weight" (.scalar .float), .plain "parts" (.vector (.table 0))]⟩]
  root := some 0

def marked (forced : Bool) (script : List Call) : State :=
  (State.set (.zeros 0 .standard) forced).play marks script

def partScript : List Call :=
  [.string "a", .table 0 [.reference "label" (.call 0), .scalar "size" (ScalarType.int.value 3)],
    .tables [.call 1, .call 1],
    .table 0 [.reference "parts" (.call 2), .scalar "weight" (ScalarType.float.value 0)]]

theorem partScript_thins :
    marks.validate = .ok () ∧ (∀ c ∈ partScript, c.Proper marks partScript) ∧
      (∀ c ∈ partScript, ∀ on, c ≠ .force on) ∧
      ∃ f f', (marked true partScript).finish ⟨52⟩ none = .ok f ∧
        (marked false partScript).finish ⟨44⟩ none = .ok f' ∧
          ∃ id position position', (Source.call 3).table? partScript = some id ∧
            Thins marks none id ⟨f.data, position⟩ ⟨f'.data, position'⟩ := by
  have proper : ∀ c ∈ partScript, c.Proper marks partScript := by decide +kernel
  have steady : ∀ c ∈ partScript, ∀ on, c ≠ .force on := by simp [partScript]
  have given : (Source.call 3).offset? (marked true partScript).answers = some ⟨52, .table⟩ := by
    decide +kernel
  have given' : (Source.call 3).offset? (marked false partScript).answers = some ⟨44, .table⟩ := by
    decide +kernel
  have finishes : ((marked true partScript).finish ⟨52⟩ none).toOption.isSome := by decide +kernel
  have finishes' : ((marked false partScript).finish ⟨44⟩ none).toOption.isSome := by decide +kernel
  obtain ⟨f, finished⟩ := Option.isSome_iff_exists.mp finishes
  obtain ⟨f', finished'⟩ := Option.isSome_iff_exists.mp finishes'
  rw [toOption_eq_some_iff] at finished finished'
  exact ⟨rfl, proper, steady, f, f', finished, finished',
    finish_unforced rfl partScript (.zeros 0 .standard) (.zeros 0 .standard) proper steady (.call 3) trivial
      52 44 none f f' given given' finished finished'⟩

/-- A mark that weighs the zero which is not the default. -/
def zeroScript : List Call := [.table 0 [.scalar "weight" (ScalarType.float.value (2 ^ 31))]]

/-- A mark that is labelled by an offset which another builder has given. -/
def labelledScript : List Call :=
  [.table 0 [.scalar "size" (ScalarType.int.value 3)], .string "ab", .string "cd",
    .table 0 [.reference "label" (.foreign ⟨24, .string⟩)]]

def shownField (x : State) (root : Ref .table) (i : Nat) : Option String := do
  let f ← (x.finish root none).toOption
  let position ← f.data.rootPosition?
  return (marks.valueJson marks.tableJson none (TableView.field ⟨f.data, position⟩ marks 0 i)).text

/-- The zero loses its sign where defaults are not forced. The other builder's offset leads to one string or
to another one. And what is forced counts for the size of the buffer. -/
theorem zeroScript_told :
    marks.validate = .ok () ∧ (∀ a ∈ (marked true zeroScript).answers, a.result.isOk) ∧
      (∀ a ∈ (marked false zeroScript).answers, a.result.isOk) ∧
        shownField (marked true zeroScript) ⟨8⟩ 2 = some "-0.0" ∧
          shownField (marked false zeroScript) ⟨4⟩ 2 = some "0.0" ∧
            shownField (marked true labelledScript) ⟨40⟩ 0 = some "\"ab\"" ∧
              shownField (marked false labelledScript) ⟨32⟩ 0 = some "\"cd\"" ∧
                admitted marks (marked true partScript) ⟨52⟩ 60 = some false ∧
                  admitted marks (marked false partScript) ⟨44⟩ 60 = some true :=
  ⟨rfl, by decide +kernel⟩

end Script
end FlatTable

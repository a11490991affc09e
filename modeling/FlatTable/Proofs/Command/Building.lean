import Mathlib
import FlatTable.Proofs.Character.Draft
import FlatTable.Proofs.Command.Activities
import FlatTable.Proofs.Command.Files
import FlatTable.Proofs.Convert.RoundTrip
import FlatTable.Proofs.Json.Objects
import FlatTable.Proofs.Schema.Described
import FlatTable.Proofs.Script.Means

/-! Building a file on the command line, and verifying and inspecting it afterwards. -/
namespace FlatTable

namespace CommandLine
open Activity Build Builder

theorem SchemaAt.validate {fs : FileSystem} {file : Option String} {s : Schema}
    (h : SchemaAt fs file s) : s.validate = .ok () := by
  cases h with
  | builtIn => exact Character.schema_validate
  | file _ _ loaded => exact Schema.validate_of_ofText loaded

/-! ### Building -/

section
variable {w w' : World} {input output : String} {tag schemaFile : Option String} {force : Bool}
  {b : Buffer}

inductive TextAt (w : World) : String → String → Prop
  | stdin {text : String} (decoded : Text.decodeUtf8? w.input.toList = some text) : TextAt w "-" text
  | file {path text : String} {b : Buffer} (isPath : path ≠ "-") (found : w.files.read path = .ok b)
      (decoded : Text.decodeUtf8? b.toList = some text) : TextAt w path text

/-- What building takes, and the bytes that it leads to. -/
inductive Builds (w : World) (input : String) (tag : Option String) (force : Bool)
    (schemaFile : Option String) (b : Buffer) : Prop
  | intro {s : Schema} {text : String} {json : Json} {root : Nat} {identifier : Option Identifier}
      {table : Ref .table} {built b' : Builder} {f : FinishedBuffer}
      (loaded : SchemaAt w.files schemaFile s) (found : TextAt w input text)
      (parsed : Json.ofText? text = some json) (isRoot : s.rootTable? = some root)
      (ran : runFrom { Builder.withCapacity 0 with forceDefaults := force } (buildTable s root json) =
        (.ok table, built))
      (tagged : Tagged tag identifier)
      (finished : runFrom built (finish table identifier) = (.ok f, b')) (data : f.data = b)

theorem within_buildStep_eq_ok_iff {α : Type} {b b' : Builder} {steps : Build α} {a : α} :
    (buildStep b steps).within w = (.ok (a, b'), w') ↔ runFrom b steps = (.ok a, b') ∧ w' = w := by
  unfold buildStep
  split
  · rename_i ran
    rw [ran, within_pure_eq_ok_iff, Prod.mk.injEq, Prod.mk.injEq, Except.ok.injEq, eq_comm (a := a),
      eq_comm (a := b')]
  · rename_i ran
    rw [ran, within_throw]
    simp

/-- Reading a document, before anything else is done with it. -/
theorem within_text_bind_eq_ok_iff {β : Type} {next : String → Activity β} {r : β} :
    (if input = "-" then readInput >>= next else readText input input >>= next).within w = (.ok r, w') ↔
      ∃ text, TextAt w input text ∧ (next text).within w = (.ok r, w') := by
  split
  · rename_i isInput
    subst isInput
    rw [within_bind_eq_ok_iff]
    constructor
    · rintro ⟨text, _, read, rest⟩
      obtain ⟨decoded, rfl⟩ := within_readInput_eq_ok_iff.mp read
      exact ⟨text, .stdin decoded, rest⟩
    · rintro ⟨text, given, rest⟩
      cases given with
      | stdin decoded => exact ⟨text, w, within_readInput_eq_ok_iff.mpr ⟨decoded, rfl⟩, rest⟩
      | file isPath => exact absurd rfl isPath
  · rename_i isPath
    rw [within_bind_eq_ok_iff]
    constructor
    · rintro ⟨text, _, read, rest⟩
      obtain ⟨⟨b, found, decoded⟩, rfl⟩ := within_readText_eq_ok_iff.mp read
      exact ⟨text, .file isPath found decoded, rest⟩
    · rintro ⟨text, given, rest⟩
      cases given with
      | stdin => exact absurd rfl isPath
      | file _ found decoded =>
        exact ⟨text, w, within_readText_eq_ok_iff.mpr ⟨⟨_, found, decoded⟩, rfl⟩, rest⟩

theorem within_runBuild_eq_ok_iff :
    (runBuild input output tag force schemaFile).within w = (.ok (), w') ↔
      ∃ b files, Builds w input tag force schemaFile b ∧ w.files.write output b = .ok files ∧
        w' = World.print { w with files := files } [s!"✓ wrote {output} ({Terminal.formatSize b.size})"] := by
  simp only [runBuild, within_bind_eq_ok_iff, within_loadSchema_eq_ok_iff]
  simp only [within_text_bind_eq_ok_iff, within_bind_eq_ok_iff, within_require_eq_ok_iff,
    within_optionalIdentifier_eq_ok_iff, within_write_eq_ok_iff, within_print]
  constructor
  · rintro ⟨s, _, ⟨loaded, rfl⟩, text, found, json, _, ⟨parsed, rfl⟩, root, _, ⟨isRoot, rfl⟩,
      ⟨table, built⟩, _, first, identifier, _, ⟨tagged, rfl⟩, ⟨f, b'⟩, _, last, _, _,
      ⟨files, written, rfl⟩, printed⟩
    obtain ⟨ran, rfl⟩ := within_buildStep_eq_ok_iff.mp first
    obtain ⟨finished, rfl⟩ := within_buildStep_eq_ok_iff.mp last
    exact ⟨f.data, files, ⟨loaded, found, parsed, isRoot, ran, tagged, finished, rfl⟩, written,
      (Prod.mk.inj printed).2.symm⟩
  · rintro ⟨_, files, ⟨loaded, found, parsed, isRoot, ran, tagged, finished, rfl⟩, written, rfl⟩
    exact ⟨_, w, ⟨loaded, rfl⟩, _, found, _, w, ⟨parsed, rfl⟩, _, w, ⟨isRoot, rfl⟩, (_, _), w,
      within_buildStep_eq_ok_iff.mpr ⟨ran, rfl⟩, _, w, ⟨tagged, rfl⟩, (_, _), w,
      within_buildStep_eq_ok_iff.mpr ⟨finished, rfl⟩, (), _, ⟨files, written, rfl⟩, rfl⟩

/-- A document that comes to a buffer is built into it if no identifier and no defaults are asked for. -/
theorem Builds.of_bufferOfJson {s : Schema} {text : String} {json : Json}
    (loaded : SchemaAt w.files schemaFile s) (found : TextAt w input text)
    (parsed : Json.ofText? text = some json) (built : s.bufferOfJson json = .ok b) :
    Builds w input none false schemaFile b := by
  unfold Schema.bufferOfJson at built
  split at built
  · cases built
  · rename_i root isRoot
    dsimp only at built
    cases ran : runFrom (Builder.withCapacity 0)
        (buildTable s root json >>= fun table => finish table none) with
    | mk result b' =>
      rw [ran] at built
      cases result with
      | error e => cases built
      | ok f =>
        obtain ⟨table, b₁, first, last⟩ := runFrom_bind_eq_ok_iff.mp ran
        exact ⟨loaded, found, parsed, isRoot, first, .none, last, Except.ok.inj built⟩

theorem TextAt.unique {text text' : String} (h : TextAt w input text) (h' : TextAt w input text') :
    text = text' := by
  cases h with
  | stdin decoded =>
    cases h' with
    | stdin decoded' => exact Option.some.inj (decoded.symm.trans decoded')
    | file isPath => exact absurd rfl isPath
  | file isPath found decoded =>
    cases h' with
    | stdin => exact absurd rfl isPath
    | file _ found' decoded' =>
      obtain rfl := Except.ok.inj (found.symm.trans found')
      exact Option.some.inj (decoded.symm.trans decoded')

/-- What a file holds that is built from a document: the table that the document describes, which is
shown as `shown`. -/
structure Describes (w : World) (input : String) (force : Bool) (schemaFile : Option String)
    (s : Schema) (root : Nat) (shown : Json) : Prop where
  loaded : SchemaAt w.files schemaFile s
  isRoot : s.rootTable? = some root
  document : ∃ text json t, TextAt w input text ∧ Json.ofText? text = some json ∧
    s.draftTable? root json = some t ∧ shown = (t.stored s force).json s ∧
      (force = false → s.normal? (.table root) none json = some shown)

/-- Without forced defaults the table is shown as the normal form of the document. -/
private theorem normal?_of_finish {s : Schema} (valid : s.Valid) {json : Json} {root : Nat}
    {identifier : Option Identifier} {table : Ref .table} {built b' : Builder} {f : FinishedBuffer}
    (ran : runFrom (Builder.withCapacity 0) (buildTable s root json) = (.ok table, built))
    (finished : runFrom built (finish table identifier) = (.ok f, b')) :
    s.normal? (.table root) none json = some (s.tableJson ⟨f.data, b'.positionOf table.rev⟩ root) := by
  obtain ⟨h, json', _, importing, shows⟩ := Construction.places_of_buildTable valid json
    (Construction.start_importing s (.zeros 0 .standard)) ran
  obtain ⟨normal, shows⟩ := shows none
  cases shows with
  | table nested =>
    obtain ⟨_, rendered, _⟩ := importing.finish valid nested finished
    rw [normal, rendered]

/-- What has been built holds the document. -/
theorem Builds.delivers (builds : Builds w input tag force schemaFile b) :
    ∃ s identifier position t, Describes w input force schemaFile s t.id (t.json s) ∧
      Tagged tag identifier ∧ b.Delivers s identifier position t := by
  obtain ⟨loaded, found, parsed, isRoot, ran, tagged, finished, rfl⟩ := builds
  rename_i s text json root identifier table built b' f
  have valid := Schema.valid_of_validate loaded.validate
  have firm := ((Script.State.start_means s (.zeros 0 .standard)).force force).firm
  have realizes := Builder.buildTable_realizes s root json
  cases read : s.draftTable? root json with
  | none =>
    rw [read] at realizes
    obtain ⟨e, b'', failed⟩ := realizes { Builder.withCapacity 0 with forceDefaults := force }
    cases ran.symm.trans failed
  | some t =>
    rw [read] at realizes
    have steps : buildTable s root json = t.build s := realizes
    have sound := Schema.sound_of_draftTable? s json (Json.sorted_of_ofText? parsed) read
    obtain ⟨h, continues, made⟩ :=
      (Construction.build_builds valid t firm sound.settable).of_ok (steps ▸ ran)
    have delivers := continues.firm.finish_of_made valid sound.stored made finished
    have id : (t.stored s force).id = root := by
      rw [TableDraft.id_stored, Schema.id_of_draftTable? read]
    refine ⟨s, identifier, _, t.stored s force, ⟨loaded, id ▸ isRoot, text, json, t, found, parsed,
      id ▸ read, rfl, ?_⟩, tagged, delivers⟩
    rintro rfl
    have normal := normal?_of_finish valid ran finished
    rwa [← id, delivers.shown] at normal

end

/-! ### Verifying and inspecting -/

section
variable {w w' : World} {style : Terminal.Style} {file : String} {json hex : Bool}
  {schemaFile : Option String} {c : Checks} {v : Verifier} {b : Buffer} {root : Root}

/-- What verifying and inspecting begin with. -/
theorem within_accept_eq_ok_iff {β : Type} {next : Schema → Buffer → Root → Activity β} {r : β} :
    (do
      let schema ← loadSchema schemaFile
      let bytes ← readBytes file
      let root ← orFail (.refused file) ((← verifier schema c).verify bytes)
      next schema bytes root).within w = (.ok r, w') ↔
      ∃ v b root, AcceptedAt w.files file schemaFile c v b root ∧
        (next v.schema b root).within w = (.ok r, w') := by
  simp only [within_bind_eq_ok_iff, within_loadSchema_eq_ok_iff, within_readBytes_eq_ok_iff,
    within_verifier_eq_ok_iff, within_orFail_eq_ok_iff]
  constructor
  · rintro ⟨s, _, ⟨loaded, rfl⟩, b, _, ⟨found, rfl⟩, v, _, ⟨⟨tag, tagged, rfl⟩, rfl⟩, root, _,
      ⟨accepted, rfl⟩, rest⟩
    exact ⟨_, b, root, ⟨⟨loaded, tagged⟩, found, accepted⟩, rest⟩
  · rintro ⟨_, b, root, ⟨⟨loaded, tagged⟩, found, accepted⟩, rest⟩
    exact ⟨_, w, ⟨loaded, rfl⟩, b, w, ⟨found, rfl⟩, _, w, ⟨⟨_, tagged, rfl⟩, rfl⟩, root, w,
      ⟨accepted, rfl⟩, rest⟩

/-- What is printed of a file that is accepted. -/
theorem exists_within_accept {next : Schema → Buffer → Root → Activity Unit}
    (accepted : AcceptedAt w.files file schemaFile c v b root) (shown : (next v.schema b root).Prints) :
    ∃ lines, (do
      let schema ← loadSchema schemaFile
      let bytes ← readBytes file
      let root ← orFail (.refused file) ((← verifier schema c).verify bytes)
      next schema bytes root).within w = (.ok (), w.print lines) := by
  obtain ⟨lines, printed⟩ := shown
  exact ⟨lines, within_accept_eq_ok_iff.mpr ⟨v, b, root, accepted, printed w⟩⟩

/-- Verifying succeeds if the file is accepted. -/
theorem within_runVerify (style : Terminal.Style)
    (accepted : AcceptedAt w.files file schemaFile c v b root) :
    ∃ line, (runVerify style file schemaFile c).within w = (.ok (), w.print [line]) :=
  ⟨_, within_accept_eq_ok_iff.mpr ⟨v, b, root, accepted, within_print _ _⟩⟩

theorem acceptedAt_of_runVerify (ran : (runVerify style file schemaFile c).within w = (.ok (), w')) :
    ∃ v b root, AcceptedAt w.files file schemaFile c v b root := by
  obtain ⟨v, b, root, accepted, _⟩ := within_accept_eq_ok_iff.mp ran
  exact ⟨v, b, root, accepted⟩

/-- Inspecting succeeds if the file is accepted. Only what it holds is printed if that is asked for. -/
theorem within_runInspect (style : Terminal.Style) (json hex : Bool)
    (accepted : AcceptedAt w.files file schemaFile c v b root) :
    ∃ lines, (runInspect style file json hex schemaFile c).within w = (.ok (), w.print lines) ∧
      (json = true → lines = [(v.schema.tableJson ⟨b, root.position⟩ root.table).pretty ""]) := by
  cases json with
  | true =>
    exact ⟨_, within_accept_eq_ok_iff.mpr ⟨v, b, root, accepted, within_print _ _⟩, fun _ => rfl⟩
  | false =>
    obtain ⟨_, _, _, wellFormed, _⟩ := Verifier.verify_eq_ok_iff.mp accepted.accepted
    obtain ⟨t, declared⟩ : ∃ t, v.schema.tables[root.table]? = some t :=
      ⟨_, Array.getElem?_eq_getElem wellFormed.table.1⟩
    have print (lines : List String) : (lines.forM print).Prints := prints_forM prints_print
    suffices printed : ∃ lines,
        (runInspect style file false hex schemaFile c).within w = (.ok (), w.print lines) by
      obtain ⟨lines, printed⟩ := printed
      exact ⟨lines, printed, fun isTrue => by cases isTrue⟩
    refine exists_within_accept accepted ?_
    dsimp only
    rw [declared, if_neg Bool.false_ne_true]
    refine (print _).bind ((prints_print _).bind ((prints_forM fun _ => prints_print _).bind ?_))
    split
    · exact (prints_print _).bind ((print _).bind (prints_print _))
    · exact prints_print _

theorem acceptedAt_of_runInspect
    (ran : (runInspect style file json hex schemaFile c).within w = (.ok (), w')) :
    ∃ v b root, AcceptedAt w.files file schemaFile c v b root := by
  obtain ⟨v, b, root, accepted, _⟩ := within_accept_eq_ok_iff.mp ran
  exact ⟨v, b, root, accepted⟩

/-! ### One after the other -/

/-- Few enough tables for the usual limits of a verifier, which nest not too deeply for them. -/
def Moderate (s : Schema) (root : Nat) (shown : Json) : Prop :=
  s.tablesIn .max (.table root) shown ≤ VerifierOptions.standard.maxDepth ∧
    s.tablesIn .sum (.table root) shown ≤ VerifierOptions.standard.maxTables

def Checks.Usual (c : Checks) (tag : Option String) : Prop :=
  c.options = VerifierOptions.standard ∧ (c.identifier = none ∨ c.identifier = tag)

/-- The commands that read a file succeed if it is accepted, and fail if not. None of them changes
a file. -/
structure Answers (w : World) (file : String) (schemaFile : Option String) (c : Checks)
    (accepted : Prop) (shown : Json) : Prop where
  verify (style : Terminal.Style) (args : List String) :
    parse args = .command (.verify file schemaFile c) →
      (accepted → ∃ line, (run style args).run w = (0, w.print [line])) ∧
        (¬ accepted → ((run style args).run w).1 = 1)
  inspect (style : Terminal.Style) (args : List String) (json hex : Bool) :
    parse args = .command (.inspect file json hex schemaFile c) →
      (accepted → ∃ lines, (run style args).run w = (0, w.print lines) ∧
        (json = true → lines = [shown.pretty ""])) ∧
          (¬ accepted → ((run style args).run w).1 = 1)

variable {s : Schema} {tag : Option String} {identifier : Option Identifier} {position : Nat}
  {t : TableDraft}

/-- A buffer is accepted by the usual checks exactly if what it holds is moderate. -/
theorem acceptedAt_iff_moderate (delivers : b.Delivers s identifier position t)
    (isRoot : s.rootTable? = some t.id) (tagged : Tagged tag identifier) (usual : c.Usual tag)
    (loaded : SchemaAt w.files schemaFile s) (found : w.files.read file = .ok b) :
    AcceptedAt w.files file schemaFile c v b root ↔
      VerifierAt w.files schemaFile c v ∧ root = ⟨position, t.id⟩ ∧ Moderate s t.id (t.json s) := by
  have verdict (v : Verifier) (asked : VerifierAt w.files schemaFile c v) :
      v.schema = s ∧ v.root? = some t.id ∧
        (v.verify b = .ok ⟨position, t.id⟩ ↔ Moderate s t.id (t.json s)) := by
    obtain ⟨loaded', tagged'⟩ := asked
    obtain rfl := loaded.unique loaded'
    refine ⟨rfl, isRoot, ?_⟩
    rw [usual.1]
    refine delivers.verdict ⟨_, .standard, _, none⟩ rfl isRoot ?_ delivers.small
    rcases usual.2 with none | same
    · exact .inl (tagged'.unique (none ▸ .none))
    · exact .inr (tagged'.unique (same ▸ tagged))
  constructor
  · rintro ⟨asked, _, accepted⟩
    obtain ⟨_, isRoot', moderate⟩ := verdict v asked
    obtain ⟨_, root', refers, _⟩ := Verifier.verify_eq_ok_iff.mp accepted
    have place : b.rootPosition? = some root.position := by
      simpa [Buffer.target?, Buffer.rootPosition?, Verifier.walk] using refers.read
    obtain ⟨at', id⟩ := root
    obtain rfl : position = at' := Option.some.inj (delivers.place.symm.trans place)
    obtain rfl : t.id = id := Option.some.inj (isRoot'.symm.trans root')
    exact ⟨asked, rfl, moderate.mp accepted⟩
  · rintro ⟨asked, rfl, moderate⟩
    exact ⟨asked, found, (verdict v asked).2.2.mpr moderate⟩

theorem Answers.of_delivers (delivers : b.Delivers s identifier position t)
    (isRoot : s.rootTable? = some t.id) (tagged : Tagged tag identifier) (usual : c.Usual tag)
    (loaded : SchemaAt w.files schemaFile s) (found : w.files.read file = .ok b) :
    Answers w file schemaFile c (Moderate s t.id (t.json s)) (t.json s) := by
  obtain ⟨v, asked, schema⟩ : ∃ v, VerifierAt w.files schemaFile c v ∧ v.schema = s := by
    rcases usual.2 with none | same
    · exact ⟨⟨s, c.options, .none, .none⟩, .intro loaded (none ▸ .none), rfl⟩
    · exact ⟨⟨s, c.options, identifier, .none⟩, .intro loaded (same ▸ tagged), rfl⟩
  have accepted (moderate : Moderate s t.id (t.json s)) :
      AcceptedAt w.files file schemaFile c v b ⟨position, t.id⟩ :=
    (acceptedAt_iff_moderate delivers isRoot tagged usual loaded found).mpr ⟨asked, rfl, moderate⟩
  have moderate {v : Verifier} {b' : Buffer} {root : Root}
      (accepted : AcceptedAt w.files file schemaFile c v b' root) : Moderate s t.id (t.json s) := by
    obtain rfl : b = b' := Except.ok.inj (found.symm.trans accepted.found)
    exact ((acceptedAt_iff_moderate delivers isRoot tagged usual loaded found).mp accepted).2.2
  refine ⟨fun style args asked => ⟨fun holds => ?_, fun fails => ?_⟩,
    fun style args json hex asked => ⟨fun holds => ?_, fun fails => ?_⟩⟩
  · obtain ⟨line, done⟩ := within_runVerify style (accepted holds)
    exact ⟨line, run_command_of_ok asked done⟩
  · refine (run_command_cases asked style w).resolve_left fun ⟨_, done⟩ => fails ?_
    obtain ⟨_, _, _, accepted⟩ := acceptedAt_of_runVerify done
    exact moderate accepted
  · obtain ⟨lines, done, only⟩ := within_runInspect style json hex (accepted holds)
    refine ⟨lines, run_command_of_ok asked done, fun isJson => ?_⟩
    rw [only isJson, schema, delivers.shown]
  · refine (run_command_cases asked style w).resolve_left fun ⟨_, done⟩ => fails ?_
    obtain ⟨_, _, _, accepted⟩ := acceptedAt_of_runInspect done
    exact moderate accepted

/-- What has been built is accepted by the usual checks exactly if it is moderate. -/
theorem Builds.answers {w : World} {input : String} {force : Bool}
    (builds : Builds w input tag force schemaFile b) :
    ∃ s root shown, Describes w input force schemaFile s root shown ∧
      ∀ (u : World) (file : String) (schemaFile' : Option String) (c : Checks),
        u.files.read file = .ok b → SchemaAt u.files schemaFile' s → c.Usual tag →
          Answers u file schemaFile' c (Moderate s root shown) shown := by
  obtain ⟨s, identifier, position, t, describes, tagged, delivers⟩ := builds.delivers
  exact ⟨s, t.id, t.json s, describes, fun u file schemaFile' c found loaded usual =>
    .of_delivers delivers describes.isRoot tagged usual loaded found⟩

/-- The file that a command has built is accepted by the usual checks, unless what it holds has more tables
than they allow or nests them more deeply: the builder has no such limit. -/
theorem answers_after_build {w w' : World} {input output : String} {force : Bool} {style : Terminal.Style}
    {args : List String} (asked : parse args = .command (.build input output tag force schemaFile))
    (ran : (run style args).run w = (0, w')) :
    ∃ s root shown b, Describes w input force schemaFile s root shown ∧ w.files.Puts output b w'.files ∧
      ∀ (u : World) (file : String) (schemaFile' : Option String) (c : Checks),
        u.files.read file = .ok b → SchemaAt u.files schemaFile' s → c.Usual tag →
          Answers u file schemaFile' c (Moderate s root shown) shown := by
  obtain ⟨b, files, builds, written, rfl⟩ :=
    within_runBuild_eq_ok_iff.mp (within_of_run_command asked ran)
  obtain ⟨s, root, shown, describes, answers⟩ := builds.answers
  exact ⟨s, root, shown, b, describes, FileSystem.puts_of_write written, answers⟩

def usualChecks : Checks := ⟨64, 1000000, false, none⟩

def worldOf (schema document : String) : World :=
  ⟨.ofFiles [("s", (Text.encodeUtf8 schema).toArray), ("d", (Text.encodeUtf8 document).toArray)], #[], [], []⟩

/-- Is a document built, and how deep do the tables nest that it comes to, and how many are there? -/
def outcome (s : Schema) (root : Nat) (json : Json) : Bool × Option (Nat × Nat) :=
  ((s.bufferOfJson json).toOption.isSome, (s.draftTable? root json).map fun t =>
    (s.tablesIn .max (.table root) ((t.stored s false).json s),
      s.tablesIn .sum (.table root) ((t.stored s false).json s)))

private theorem asked_build : parse ["build", "d", "-o", "b", "--schema", "s"] =
    .command (.build "d" "b" none false (some "s")) := by cbv

private theorem asked_verify : parse ["verify", "b", "--schema", "s"] =
    .command (.verify "b" (some "s") usualChecks) := by cbv

/-- A document that is built, and what is known of the file. -/
private theorem exists_build {schema document : String} {root depth count : Nat} {json : Json}
    (loaded : Schema.ofText schema = .ok s) (isRoot : s.rootTable? = some root)
    (parsed : Json.ofText? document = some json)
    (known : outcome s root json = (true, some (depth, count))) :
    ∃ w' b, (run .plain ["build", "d", "-o", "b", "--schema", "s"]).run (worldOf schema document) = (0, w') ∧
      Builds (worldOf schema document) "d" none false (some "s") b ∧ w'.files.read "b" = .ok b ∧
      ∀ s' root' shown, Describes (worldOf schema document) "d" false (some "s") s' root' shown →
        SchemaAt w'.files (some "s") s' ∧ (Moderate s' root' shown ↔ depth ≤ 64 ∧ count ≤ 1000000) := by
  have decoded (text : String) : Text.decodeUtf8? (Text.encodeUtf8 text).toArray.toList = some text := by
    rw [List.toList_toArray, Text.decodeUtf8?_encodeUtf8]
  have loadedAt : SchemaAt (worldOf schema document).files (some "s") s :=
    .file rfl (decoded schema) loaded
  have textAt : TextAt (worldOf schema document) "d" document :=
    .file (by decide) rfl (decoded document)
  obtain ⟨built, counted⟩ := Prod.mk.inj known
  obtain ⟨b, built⟩ := Option.isSome_iff_exists.mp built
  have builds := Builds.of_bufferOfJson loadedAt textAt parsed (toOption_eq_some_iff.mp built)
  have written : (worldOf schema document).files.write "b" b =
      .ok ((worldOf schema document).files.set ["b"] (.file b)) := rfl
  refine ⟨_, b, run_command_of_ok asked_build (within_runBuild_eq_ok_iff.mpr ⟨b, _, builds, written, rfl⟩),
    builds, (FileSystem.puts_of_write written).read, ?_⟩
  intro s' root' shown describes
  obtain rfl := loadedAt.unique describes.loaded
  obtain rfl := Option.some.inj (isRoot.symm.trans describes.isRoot)
  obtain ⟨text, json', t, found, parsed', read, rfl, _⟩ := describes.document
  obtain rfl := textAt.unique found
  obtain rfl := Option.some.inj (parsed.symm.trans parsed')
  rw [read, Option.map_some] at counted
  obtain ⟨deep, many⟩ := Prod.mk.inj (Option.some.inj counted)
  rw [Moderate, deep, many]
  exact ⟨.file rfl (decoded schema) loaded, .rfl⟩

def nodesText : String :=
  "\x7b\"tables\":[\x7b\"name\":\"T\",\"fields\":[\x7b\"name\":\"n\",\"type\":\"T\"\x7d]\x7d]\x7d"

def nodes : Schema := ⟨"", [], #[], #[], #[⟨"T", #[.plain "n" (.table 0)]⟩], none⟩

private theorem nodes_of_text : Schema.ofText nodesText = .ok nodes := by cbv

def nestedChars : Nat → List Char
  | 0 => ['\x7b', '\x7d']
  | n + 1 => ['\x7b', '"', 'n', '"', ':'] ++ nestedChars n ++ ['\x7d']

def nestedText (n : Nat) : String := String.ofList (nestedChars n)

private theorem exists_nested {n : Nat} {result : Bool × Option (Nat × Nat)}
    (known : ((((Json.Token.readAll? [] (nestedChars n)).bind Json.Document.ofTokens?).bind fun d =>
      if d.depth ≤ Json.maxDepth then d.toJson? else none).map (outcome nodes 0)) = some result) :
    ∃ json, Json.ofText? (nestedText n) = some json ∧ outcome nodes 0 json = result := by
  have text : Json.ofText? (nestedText n) =
      ((Json.Token.readAll? [] (nestedChars n)).bind Json.Document.ofTokens?).bind fun d =>
        if d.depth ≤ Json.maxDepth then d.toJson? else none := by
    rw [Json.ofText?, Json.Document.ofText?, Json.tokens?, nestedText, String.toList_ofList]
    rfl
  rw [text]
  exact Option.map_eq_some_iff.mp known

/-- Three tables are within the limits. -/
theorem accepted_after_build :
    ∃ w', (run .plain ["build", "d", "-o", "b", "--schema", "s"]).run (worldOf nodesText (nestedText 2)) =
        (0, w') ∧ ((run .plain ["verify", "b", "--schema", "s"]).run w').1 = 0 := by
  obtain ⟨json, parsed, known⟩ : ∃ json, Json.ofText? (nestedText 2) = some json ∧
    outcome nodes 0 json = (true, some (3, 3)) := exists_nested (by decide +kernel)
  obtain ⟨w', _, ran, _, _, within⟩ := exists_build nodes_of_text rfl parsed known
  obtain ⟨s, root, shown, b, describes, puts, answers⟩ := answers_after_build asked_build ran
  obtain ⟨loaded, moderate⟩ := within s root shown describes
  obtain ⟨line, verified⟩ :=
    ((answers w' "b" (some "s") usualChecks puts.read loaded ⟨rfl, .inl rfl⟩).verify .plain _
      asked_verify).1 (moderate.mpr (by decide))
  exact ⟨w', ran, by rw [verified]⟩

/-- Tables that nest 65 levels deep are built as well, and the file is refused. -/
theorem refused_after_build :
    ∃ w', (run .plain ["build", "d", "-o", "b", "--schema", "s"]).run (worldOf nodesText (nestedText 64)) =
        (0, w') ∧ ((run .plain ["verify", "b", "--schema", "s"]).run w').1 = 1 := by
  obtain ⟨json, parsed, known⟩ : ∃ json, Json.ofText? (nestedText 64) = some json ∧
    outcome nodes 0 json = (true, some (65, 65)) := exists_nested (by decide +kernel)
  obtain ⟨w', b, ran, builds, found, within⟩ := exists_build nodes_of_text rfl parsed known
  obtain ⟨s, root, shown, describes, answers⟩ := builds.answers
  obtain ⟨loaded, moderate⟩ := within s root shown describes
  have refused : ¬ Moderate s root shown := by
    rw [moderate]
    decide
  exact ⟨w', ran, ((answers w' "b" (some "s") usualChecks found loaded ⟨rfl, .inl rfl⟩).verify .plain _
    asked_verify).2 refused⟩

end
end CommandLine
end FlatTable

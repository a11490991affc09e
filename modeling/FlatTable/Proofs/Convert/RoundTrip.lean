import FlatTable.Proofs.Builder.Counted
import FlatTable.Proofs.Convert.Imported
import FlatTable.Samples

/-! JSON in, a buffer, and JSON out. -/
namespace FlatTable
open Layout Build Builder

namespace Construction
variable {s : Schema} {x : Construction} {root : Ref .table} {id : Nat} {json : Json}
  {f : FinishedBuffer} {b' : Builder} {identifier : Option Identifier}

/-- What is finished at a table that is rendered as this. -/
theorem Importing.finish (importing : x.Importing s) (valid : s.Valid)
    (shows : x.history.Shows s root.rev id json)
    (finished : runFrom x.builder (Builder.finish root identifier) = (.ok f, b')) :
    f.data.rootPosition? = some (b'.positionOf root.rev) ∧
      s.tableJson ⟨f.data, b'.positionOf root.rev⟩ id = json ∧ f.data.size ≤ maxBufferSize ∧
      ∀ v : Verifier, v.schema = s → v.root? = some id → v.identifier = none →
        f.data.size ≤ v.options.maxBufferSize →
        s.tablesIn .max (.table id) json ≤ v.options.maxDepth →
        s.tablesIn .sum (.table id) json ≤ v.options.maxTables →
          v.verify f.data = .ok ⟨b'.positionOf root.rev, id⟩ := by
  obtain ⟨rfl, built, rooted⟩ := importing.sound.finish finished
  obtain ⟨_, _, ⟨_, grown⟩, _⟩ :=
    (Builder.finish_does root identifier importing.sound.builder).of_ok finished
  obtain ⟨⟨a, known, rfl⟩, rendered⟩ := shows
  have rendered := rendered b' x.history (List.Subset.refl _) built
    (importing.omits.kept grown.keeps)
  have reference := rooted.reference.target? built.sound
  rw [Builder.positionOf_length] at reference
  refine ⟨by simpa [Buffer.target?, Buffer.rootPosition?] using reference, rendered,
    built.size_le, ?_⟩
  intro v schema isRoot untagged small shallow few
  subst schema
  have tally (c : Tally) := built.tablesIn_tableJson valid importing.typed c known
  rw [← rendered, tally] at shallow few
  exact built.verify rooted importing.typed
    (importing.sound.grounded.tableAt?_eq_some_iff.mpr ⟨a, known, rfl⟩)
    (rooted.header (.inl (by rw [Verifier.tag, untagged]; rfl)) small) isRoot shallow few

end Construction

namespace Schema
variable {s : Schema} {json : Json} {b : Buffer}

/-- A buffer that is built from JSON is rendered as the JSON's normal form, and is accepted by every
verifier that allows as many tables as there are in it and as deep as they nest. At every level the normal form
has just the members that its object asks for and the defaults. -/
theorem tableJson_of_bufferOfJson (valid : s.validate = .ok ())
    (built : s.bufferOfJson json = .ok b) :
    (∀ id default members json, s.normal? (.table id) default (.object members) = some json →
      s.NormalObject id members json) ∧
    ∃ root position json', s.rootTable? = some root ∧ b.rootPosition? = some position ∧
      s.normal? (.table root) none json = some json' ∧
      s.tableJson ⟨b, position⟩ root = json' ∧ b.size ≤ maxBufferSize ∧
      ∀ v : Verifier, v.schema = s → v.root? = some root → v.identifier = none →
        b.size ≤ v.options.maxBufferSize →
        s.tablesIn .max (.table root) json' ≤ v.options.maxDepth →
        s.tablesIn .sum (.table root) json' ≤ v.options.maxTables →
          v.verify b = .ok ⟨position, root⟩ := by
  have valid := valid_of_validate valid
  refine ⟨fun _ _ _ _ => normalObject_of_normal? valid, ?_⟩
  unfold bufferOfJson at built
  split at built
  · cases built
  · rename_i root isRoot
    dsimp only at built
    cases ran : runFrom (Builder.withCapacity 0)
        (buildTable s root json >>= fun table => finish table none) with
    | mk result b' =>
      rw [ran] at built
      cases result with
      | error e => cases built
      | ok f =>
        obtain rfl : f.data = b := Except.ok.inj built
        obtain ⟨r, b₁, table, finished⟩ := runFrom_bind_eq_ok_iff.mp ran
        obtain ⟨h, json', _, importing, shows⟩ := Construction.places_of_buildTable valid json
          (Construction.start_importing s (.zeros 0 .standard)) table
        obtain ⟨normal, shows⟩ := shows none
        cases shows with
        | table nested =>
          obtain ⟨place, rendered, rest⟩ := importing.finish valid nested finished
          exact ⟨root, b'.positionOf r.rev, json', isRoot, place, normal, rendered, rest⟩

def things : Schema where
  nameSpace := ""
  attributes := []
  enums := #[⟨"Color", .ubyte, [⟨"Red", 0⟩, ⟨"Blue", 1⟩]⟩]
  structs := #[]
  tables := #[⟨"Thing", #[.plain "color" (.enum 0), .plain "name" .string,
    .plain "parts" (.vector (.table 0)), .plain "weight" (.scalar .double)]⟩]
  root := some 0

def thing : Json := .object [("color", .integer 1), ("name", .null),
  ("parts", .array [.object []]), ("weight", .real 0x8000000000000000)]

/-- The color is shown by its name, and the weight is the default. -/
def shownThing : Json := .object [("color", .string "Blue"),
  ("parts", .array [.object [("color", .string "Red"), ("weight", .real 0)]]), ("weight", .real 0)]

private theorem normal?_thing : things.normal? (.table 0) none thing = some shownThing := by
  have color : things.fieldNamed? 0 "color" = some (0, .plain "color" (.enum 0)) := by
    decide +kernel
  have name : things.fieldNamed? 0 "name" = some (1, .plain "name" .string) := by decide +kernel
  have parts : things.fieldNamed? 0 "parts" = some (2, .plain "parts" (.vector (.table 0))) := by
    decide +kernel
  have weight : things.fieldNamed? 0 "weight" = some (3, .plain "weight" (.scalar .double)) := by
    decide +kernel
  have part : things.normal? (.table 0) none (.object []) =
      some (.object [("color", .string "Red"), ("weight", .real 0)]) := by
    rw [normal?, normalMembers?, Option.map_some, normalTable_of_sorted rfl rfl (by decide +kernel)]
    rfl
  have items : things.normal? (.vector (.table 0)) none (.array [.object []]) =
      some (.array [.object [("color", .string "Red"), ("weight", .real 0)]]) := by
    rw [normal?, normalItems?, ElementType.asField, part]
    rfl
  rw [thing, normal?, normalMembers?_cons color rfl rfl rfl, normalMembers?_cons_null name,
    normalMembers?_cons parts rfl rfl items, normalMembers?_cons weight rfl rfl rfl, normalMembers?,
    Option.map_some, normalTable_of_sorted rfl rfl (by decide +kernel)]
  rfl

theorem thing_roundTrip :
    things.validate = .ok () ∧ ∃ b position, things.bufferOfJson thing = .ok b ∧
      b.rootPosition? = some position ∧ things.tableJson ⟨b, position⟩ 0 = shownThing ∧
      Verifier.verify ⟨things, .standard, none, none⟩ b = .ok ⟨position, 0⟩ := by
  have isSome : (things.bufferOfJson thing).toOption.isSome := by decide +kernel
  cases built : things.bufferOfJson thing with
  | error e => simp [built, Except.toOption] at isSome
  | ok b =>
    obtain ⟨_, root, position, json, isRoot, place, normal, rendered, size, accepted⟩ :=
      tableJson_of_bufferOfJson rfl built
    obtain rfl : 0 = root := Option.some.inj isRoot
    obtain rfl := Option.some.inj (normal?_thing.symm.trans normal)
    exact ⟨rfl, b, position, rfl, place, rendered,
      accepted _ rfl rfl rfl size (by decide +kernel) (by decide +kernel)⟩

/-- Fields of every kind in one message. -/
example : (Samples.heroBuffer.toOption.map fun b =>
    ((Verifier.standard Samples.heroSchema).verify b).toOption.isSome) = some true := by decide +kernel

end Schema
end FlatTable

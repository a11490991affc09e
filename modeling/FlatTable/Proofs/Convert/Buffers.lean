import FlatTable.Proofs.Builder.Counted
import FlatTable.Proofs.Convert.DraftFinite

/-! Buffers that are finished at tables which hold drafts: what they show, and who accepts them. -/
namespace FlatTable
open Layout Build Builder

/-- A finished buffer whose root is a table that holds this. -/
structure Buffer.Delivers (b : Buffer) (s : Schema) (identifier : Option Identifier) (position : Nat)
    (t : TableDraft) : Prop where
  place : b.rootPosition? = some position
  shown : s.tableJson ⟨b, position⟩ t.id = t.json s
  small : b.size ≤ maxBufferSize
  finite : s.FloatsFinite ⟨b, position⟩ t.id → t.Finite
  verdict : ∀ v : Verifier, v.schema = s → v.root? = some t.id →
    v.identifier = none ∨ v.identifier = identifier → b.size ≤ v.options.maxBufferSize →
      (v.verify b = .ok ⟨position, t.id⟩ ↔
        s.tablesIn .max (.table t.id) (t.json s) ≤ v.options.maxDepth ∧
        s.tablesIn .sum (.table t.id) (t.json s) ≤ v.options.maxTables)
  tagged : ∀ given, identifier = some given → b.slice? offsetSize identifierSize = some given.bytes

/-- A verifier that asks for an identifier accepts no buffer with another one. -/
theorem Buffer.Delivers.asked_eq {b : Buffer} {s : Schema} {identifier : Option Identifier} {position : Nat}
    {t : TableDraft} (delivers : b.Delivers s identifier position t) {v : Verifier} {root : Root}
    {asked given : Identifier} (accepted : v.verify b = .ok root) (asks : v.identifier = some asked)
    (carries : identifier = some given) : asked = given := by
  have found := (Verifier.verify_eq_ok_iff.mp accepted).1.tagged
  rw [show v.tag = asked.bytes by rw [Verifier.tag, asks]; rfl, asked.length_eq,
    delivers.tagged given carries] at found
  obtain ⟨bytes, _⟩ := asked
  obtain ⟨bytes', _⟩ := given
  obtain rfl : bytes' = bytes := Option.some.inj found
  rfl

/-- Of two buffers that deliver as many tables, nested as deep, a verifier accepts both or neither. Its limit
must not lie between their sizes, and it must not ask for an identifier if none has been given. -/
theorem Buffer.Delivers.verify_iff {b b' : Buffer} {s : Schema} {identifier : Option Identifier}
    {position position' : Nat} {t t' : TableDraft} (delivers : b.Delivers s identifier position t)
    (delivers' : b'.Delivers s identifier position' t') (id : t'.id = t.id)
    (tally : ∀ c, s.tablesIn c (.table t.id) (t'.json s) = s.tablesIn c (.table t.id) (t.json s))
    {v : Verifier} (schema : v.schema = s) (isRoot : v.root? = some t.id)
    (asked : v.identifier = none ∨ identifier ≠ none)
    (small : b.size ≤ v.options.maxBufferSize ↔ b'.size ≤ v.options.maxBufferSize) :
    v.verify b = .ok ⟨position, t.id⟩ ↔ v.verify b' = .ok ⟨position', t.id⟩ := by
  by_cases fits : b.size ≤ v.options.maxBufferSize
  case neg =>
    exact ⟨fun accepted => absurd (Verifier.verify_eq_ok_iff.mp accepted).1.small fits,
      fun accepted => absurd (small.mpr (Verifier.verify_eq_ok_iff.mp accepted).1.small) fits⟩
  by_cases asked : v.identifier = none ∨ v.identifier = identifier
  · have verdict' := delivers'.verdict v schema (id ▸ isRoot) asked (small.mp fits)
    rw [id, tally, tally] at verdict'
    exact (delivers.verdict v schema isRoot asked fits).trans verdict'.symm
  · -- Another identifier is asked for than the one that both of them carry.
    rename_i given
    rw [not_or] at asked
    obtain ⟨wanted, asks⟩ := Option.ne_none_iff_exists'.mp asked.1
    obtain ⟨found, carries⟩ := Option.ne_none_iff_exists'.mp (given.resolve_left asked.1)
    have other : wanted ≠ found := fun same => asked.2 (by rw [asks, carries, same])
    exact ⟨fun accepted => absurd (delivers.asked_eq accepted asks carries) other,
      fun accepted => absurd (delivers'.asked_eq accepted asks carries) other⟩

namespace Construction
variable {s : Schema} {x : Construction} {root : Ref .table} {identifier : Option Identifier}
  {f : FinishedBuffer} {b' : Builder} {t : TableDraft}

theorem Firm.finish_of_made (firm : x.Firm s) (valid : s.Valid) (sound : t.Sound s)
    (made : t.Made x.history root.rev)
    (finished : runFrom x.builder (Builder.finish root identifier) = (.ok f, b')) :
    f.data.Delivers s identifier (b'.positionOf root.rev) t := by
  obtain ⟨rfl, built, complete, rooted⟩ := firm.finish finished
  obtain ⟨a, object, table⟩ := made.known
  have reference := rooted.reference.target? built.sound
  rw [Builder.positionOf_length] at reference
  have shown := Builder.tableJson_of_made valid built complete t sound made
  refine ⟨by simpa [Buffer.target?, Buffer.rootPosition?] using reference, shown, built.size_le,
    Builder.finite_of_tableMade valid built complete t sound made, ?_, ?_⟩
  case refine_2 =>
    intro given same
    have header := rooted.header (v := ⟨s, .standard, identifier, none⟩) (.inr rfl) built.size_le
    have found := header.tagged
    rw [Verifier.tag, same] at found
    rwa [← given.length_eq]
  intro v schema isRoot asked small
  subst schema
  have tally (c : Tally) : v.schema.tablesIn c (.table t.id) (t.json v.schema) =
      b'.finished.data.tally c v.schema (b'.positionOf root.rev) t.id := by
    rw [← shown, ← table, built.tablesIn_tableJson valid firm.typed c object,
      built.tally_eq c firm.typed object]
  have refers := built.refersTo (o := v.options) rooted.reference object
  rw [Builder.positionOf_length] at refers
  have tagged : v.tag = [] ∨ v.tag = (identifier.map Identifier.bytes).getD [] := by
    rcases asked with none | same
    · exact .inl (by rw [Verifier.tag, none]; rfl)
    · exact .inr (by rw [Verifier.tag, same])
  rw [Verifier.verify_eq_ok_iff, tally, tally]
  constructor
  · intro accepted
    obtain ⟨_, _, _, _, shallow, few⟩ := accepted
    exact ⟨shallow, few⟩
  · intro limits
    refine ⟨rooted.header tagged small, isRoot, refers, ?_, limits⟩
    rw [← table]
    exact built.wellFormed firm.typed object

end Construction

def TableDraft.buffer (s : Schema) (t : TableDraft) : Except BuildError Buffer :=
  let steps : Build FinishedBuffer := do
    let table ← t.build s
    finish table none
  ((steps.runFrom (Builder.withCapacity 0)).1).map FinishedBuffer.data

/-- A buffer is what finishing leaves of a builder that has built the table. -/
theorem TableDraft.buffer_eq_ok_iff {s : Schema} {t : TableDraft} {b : Buffer} :
    t.buffer s = .ok b ↔ ∃ r b₁ f b₂, runFrom (Builder.withCapacity 0) (t.build s) = (.ok r, b₁) ∧
      runFrom b₁ (Builder.finish r none) = (.ok f, b₂) ∧ f.data = b := by
  unfold TableDraft.buffer
  dsimp only
  rw [runFrom_bind]
  cases ran : runFrom (Builder.withCapacity 0) (t.build s) with
  | mk result b₁ =>
    cases result with
    | error e => simp [Except.map]
    | ok r =>
      cases ran' : runFrom b₁ (Builder.finish r none) with
      | mk result b₂ => cases result <;> simp [Except.map, ran']

/-- A table is built and finished, with what is stored of it, unless there is no room. -/
theorem TableDraft.finish_cases {s : Schema} (valid : s.Valid) (t : TableDraft) (settable : t.Settable s) :
    (∃ e, t.buffer s = .error e ∧ e.IsLimit) ∨
      ∃ (x : Construction) (r : Ref .table) (f : FinishedBuffer) (b' : Builder),
        t.buffer s = .ok f.data ∧ x.Firm s ∧ (t.stored s false).Made x.history r.rev ∧
          runFrom x.builder (finish r none) = (.ok f, b') := by
  have firm := Construction.start_firm s (.zeros 0 .standard)
  have builds := Construction.build_builds valid t firm settable
  have start : Builder.withCapacity 0 = (Construction.start (.zeros 0 .standard)).builder := rfl
  unfold TableDraft.buffer
  dsimp only
  rw [start, runFrom_bind]
  cases ran : runFrom (Construction.start (.zeros 0 .standard)).builder (t.build s) with
  | mk result b₁ =>
    cases result with
    | error e => exact .inl ⟨e, rfl, (builds.of_error ran).2⟩
    | ok r =>
      obtain ⟨h, continues, made⟩ := builds.of_ok ran
      have firm₁ := continues.firm
      obtain ⟨a, object, _⟩ := made.known
      dsimp only
      cases ran' : runFrom b₁ (finish r none) with
      | mk result b₂ =>
        cases result with
        | error e =>
          refine .inl ⟨e, rfl, ?_⟩
          exact Builder.finish_limited none firm₁.builder (firm₁.placed _ object)
            (firm₁.behind object) _ _ ran'
        | ok f => exact .inr ⟨⟨b₁, h⟩, r, f, b₂, rfl, firm₁, made, ran'⟩

namespace Schema
variable {s : Schema} {json : Json} {b : Buffer} {t : TableDraft} {id : Nat}

/-- JSON comes to what has been read of it. -/
theorem bufferOfJson_eq (isRoot : s.rootTable? = some id) (read : s.draftTable? id json = some t) :
    s.bufferOfJson json = t.buffer s := by
  have realizes := buildTable_realizes s id json
  rw [read] at realizes
  have steps : buildTable s id json = t.build s := realizes
  simp only [bufferOfJson, isRoot, steps]
  rfl

/-- A buffer is built only from JSON that can be read. -/
theorem exists_draft_of_bufferOfJson (built : s.bufferOfJson json = .ok b) :
    ∃ id t, s.rootTable? = some id ∧ s.draftTable? id json = some t ∧ t.buffer s = .ok b := by
  cases isRoot : s.rootTable? with
  | none => simp [bufferOfJson, isRoot] at built
  | some id =>
    cases read : s.draftTable? id json with
    | some t => exact ⟨id, t, rfl, read, (bufferOfJson_eq isRoot read).symm.trans built⟩
    | none =>
      have realizes := buildTable_realizes s id json
      rw [read] at realizes
      obtain ⟨e, b', ran⟩ := Fails.bind realizes (fun table => finish table none)
        (Builder.withCapacity 0)
      simp only [bufferOfJson, isRoot] at built
      rw [ran] at built
      cases built

/-- A draft is built into a buffer that holds what is stored of it, unless there is no room. -/
theorem buffer_cases (valid : s.Valid) (sound : t.Sound s) :
    (∃ e, t.buffer s = .error e ∧ e.IsLimit) ∨
      ∃ b position, t.buffer s = .ok b ∧
        b.Delivers s none position (t.stored s false) := by
  rcases t.finish_cases valid sound.settable with failed | ⟨x, r, f, b', built, firm, made, finished⟩
  · exact .inl failed
  · exact .inr ⟨_, _, built, firm.finish_of_made valid sound.stored made finished⟩

end Schema
end FlatTable

import FlatTable.Proofs.Script.Means

/-! Each call that succeeds builds what it means, by what the offsets that it uses have been given for. -/
namespace FlatTable.Script
open Build Builder Construction

section
variable {s : Schema} {calls : List Call} {m : Meaning} {h h' : History} {x : State} {b' : Builder}
  {c : Call} {id : Nat}

/-! ### Offsets that are used -/

/-- Offsets of one kind stand for drafts of one kind. -/
private theorem State.Means.exists_drafts {δ : Type} (means : x.Means s m h) {target : ObjectKind}
    {f : Draft → Option δ} {R : Placed → δ → Prop}
    (picks : ∀ d p, d.Sound s → d.Made h (.reference p) → p.kind = target → ∃ e, f d = some e ∧ R p e)
    {items : List Source} {offsets : List Placed} (own : ∀ item ∈ items, item.Own)
    (given : items.mapM (Source.offset? x.answers) = some offsets)
    (kinds : ∀ p ∈ offsets, p.kind = target) :
    ∃ es, (items.mapM fun item : Source => (item.draft? m.drafts).bind f) = some es ∧
      offsets.Forall₂ R es := by
  simp only [mapM_eq_some_iff] at given ⊢
  induction given with
  | nil => exact ⟨[], .nil, .nil⟩
  | @cons item p items offsets first _ ih =>
    obtain ⟨here, own⟩ := List.forall_mem_cons.mp own
    obtain ⟨kind, kinds⟩ := List.forall_mem_cons.mp kinds
    obtain ⟨d, drafted, sound, made⟩ := means.made item p here first
    obtain ⟨e, picked, related⟩ := picks d p sound made kind
    obtain ⟨es, others, rest⟩ := ih own kinds
    exact ⟨e :: es, .cons (Option.bind_eq_some_iff.mpr ⟨d, drafted, picked⟩) others, .cons related rest⟩

/-- Placed objects of one kind are references to that kind. -/
private theorem map_placed {kind : ObjectKind} {offsets : List Placed}
    (kinds : ∀ p ∈ offsets, p.kind = kind) :
    (offsets.map fun p => (⟨p.rev⟩ : Ref kind)).map Ref.placed = offsets := by
  rw [List.map_map]
  refine (List.map_congr_left fun p member => ?_).trans (List.map_id _)
  exact congrArg (Placed.mk p.rev) (kinds p member).symm

/-! ### Entries -/

/-- An entry is added with what its offset stands for. -/
private theorem State.Means.exists_draft (means : x.Means s m h) (declared : m.Declared calls) {e : Entry}
    {add : Add} (proper : e.Proper s calls id) (added : e.add? x.answers = some add) :
    ∃ d, e.draft? s id m.drafts = s.asked? id add.name d ∧ d.Sound s ∧ d.Made h add.setting ∧
      ∀ field ∈ s.fieldNamed? id add.name, ∀ table ∈ field.2.type.tables?, ∀ found ∈ d.tableIds,
        found = table := by
  cases e with
  | scalar name v =>
    cases added
    exact ⟨.scalar v, rfl, .scalar, .scalar, fun _ _ _ _ _ none => absurd none List.not_mem_nil⟩
  | struct name values =>
    cases added
    exact ⟨.struct values, rfl, .struct, .struct, fun _ _ _ _ _ none => absurd none List.not_mem_nil⟩
  | reference name source =>
    obtain ⟨p, given, rfl⟩ := Option.map_eq_some_iff.mp added
    obtain ⟨own, asDeclared⟩ := proper
    obtain ⟨d, drafted, sound, made⟩ := means.made source p own given
    refine ⟨d, by rw [Entry.draft?, drafted]; rfl, sound, made,
      fun field named table tables found member => ?_⟩
    exact asDeclared field named table tables found (declared.tables source d drafted found member)

/-- What is added is set if it may be asked for. -/
private theorem apply_eq_ok_iff_asked {a : TableArgs} (isOpen : a.Open s id) {add : Add} {d : Draft}
    (made : d.Made h add.setting)
    (declared : ∀ field ∈ s.fieldNamed? id add.name, ∀ table ∈ field.2.type.tables?,
      ∀ found ∈ d.tableIds, found = table) {a' : TableArgs} :
    add.apply a = .ok a' ↔ ∃ e, s.asked? id add.name d = some e ∧ a' = a.set e.1 add.setting := by
  rw [Add.apply_eq_ok_iff isOpen]
  constructor
  · rintro ⟨i, f, named, live, fits, rfl⟩
    have hasType := made.hasType fits fun table tables => declared (i, f) named table tables
    exact ⟨(i, d), Schema.asked?_eq_some_iff.mpr ⟨f, named, live, hasType, rfl⟩, rfl⟩
  · rintro ⟨e, isAsked, rfl⟩
    obtain ⟨f, named, live, hasType, rfl⟩ := Schema.asked?_eq_some_iff.mp isAsked
    exact ⟨e.1, f, named, live, made.fits hasType, rfl⟩

/-- Whether something is set does not depend on what has been set before. -/
private theorem isOk_apply {a a' : TableArgs} (isOpen : a.Open s id) (isOpen' : a'.Open s id) (add : Add) :
    (add.apply a).isOk = (add.apply a').isOk := by
  have sets {a : TableArgs} (isOpen : a.Open s id) : (add.apply a).isOk ↔
      ∃ i f, s.fieldNamed? id add.name = some (i, f) ∧ f.deprecated = false ∧
        add.setting.Fits s f.type := by
    constructor
    · intro isOk
      cases applied : add.apply a with
      | error e => rw [applied] at isOk; cases isOk
      | ok a' =>
        obtain ⟨i, f, named, live, fits, _⟩ := (Add.apply_eq_ok_iff isOpen).mp applied
        exact ⟨i, f, named, live, fits⟩
    · rintro ⟨i, f, named, live, fits⟩
      rw [(Add.apply_eq_ok_iff isOpen).mpr ⟨i, f, named, live, fits, rfl⟩]
      rfl
  exact Bool.eq_iff_iff.mpr ((sets isOpen).trans (sets isOpen').symm)

/-- The arguments of a table heed what its entries mean, but for those that they refuse. -/
private theorem State.Means.heeds (means : x.Means s m h) (declared : m.Declared calls)
    {new : TableArgs} (created : TableArgs.new s id = .ok new) {entries : List Entry} {adds : List Add}
    (given : entries.Forall₂ (fun e add => e.add? x.answers = some add) adds)
    (proper : ∀ e ∈ entries.filter fun e => !e.refused s x.answers id, e.Proper s calls id)
    {a : TableArgs} {asked : List (Nat × Draft)} (heeds : a.Heeds s h id asked) :
    (a.addAll adds).Heeds s h id (asked ++
      (entries.filter fun e => !e.refused s x.answers id).filterMap (Entry.draft? s id m.drafts)) := by
  have isOpen : new.Open s id := by
    obtain ⟨fits, table⟩ := TableArgs.new_fits created
    exact ⟨fits.schema, table⟩
  induction given generalizing a asked with
  | nil => simpa [TableArgs.addAll] using heeds
  | @cons e add entries adds first _ ih =>
    have refused : e.refused s x.answers id = !(add.apply a).isOk := by
      rw [Entry.refused, first, created]
      exact congrArg not (isOk_apply isOpen heeds.isOpen add)
    change (((add.apply a).toOption.getD a).addAll adds).Heeds s h id _
    cases applied : add.apply a with
    | error error =>
      rw [applied] at refused
      rw [List.filter_cons_of_neg (by rw [refused]; exact Bool.false_ne_true)] at proper ⊢
      exact ih proper heeds
    | ok a' =>
      rw [applied] at refused
      rw [List.filter_cons_of_pos (by rw [refused]; rfl)] at proper ⊢
      obtain ⟨here, proper⟩ := List.forall_mem_cons.mp proper
      obtain ⟨d, drafted, sound, made, asDeclared⟩ := means.exists_draft declared here first
      obtain ⟨entry, isAsked, rfl⟩ := (apply_eq_ok_iff_asked heeds.isOpen made asDeclared).mp applied
      rw [List.filterMap_cons_some (drafted.trans isAsked), List.append_cons]
      exact ih proper (heeds.set_of_asked isAsked sound made)

/-- Entries that are refused mean nothing. -/
theorem State.Means.draft?_trim (means : x.Means s m h) (declared : m.Declared calls)
    (proper : c.Proper s calls) (forced : Bool) :
    (c.trim s x.answers).draft? s forced m.drafts = c.draft? s forced m.drafts := by
  cases c with
  | table id entries =>
    have same : (entries.filter fun e => !e.refused s x.answers id).filterMap (Entry.draft? s id m.drafts) =
        entries.filterMap (Entry.draft? s id m.drafts) := by
      rw [List.filterMap_filter]
      refine List.filterMap_congr fun e member => ?_
      split
      · rfl
      · rename_i refused
        rw [Bool.not_eq_true, Bool.not_eq_false', Entry.refused] at refused
        split at refused
        · rename_i add a added created
          obtain ⟨fits, table⟩ := TableArgs.new_fits created
          obtain ⟨d, drafted, _, made, asDeclared⟩ := means.exists_draft declared (proper e member) added
          rw [drafted, eq_comm, Option.eq_none_iff_forall_ne_some]
          intro entry isAsked
          have applied := (apply_eq_ok_iff_asked ⟨fits.schema, table⟩ made asDeclared).mpr
            ⟨entry, isAsked, rfl⟩
          rw [applied] at refused
          cases refused
        · cases refused
    rw [Call.trim, Call.draft?, Call.draft?, same]
  | string text | vector t items | strings items | tables items | json id value | force on | skip => rfl

theorem Call.Proper.trim (proper : c.Proper s calls) (answers : List Answer) :
    (c.trim s answers).Proper s calls := by
  cases c with
  | table id entries => exact fun e member => proper e (List.mem_filter.mp member).1
  | string text | vector t items | strings items | tables items | json id value | force on | skip =>
    exact proper

/-! ### Calls -/

/-- What a call's answer says is built, as the call means it. -/
private def Answers (s : Schema) (x : State) (h : History) (d? : Option Draft) (result : Option Placed)
    (b' : Builder) : Prop :=
  ∃ h', Continues s ⟨x.builder, h⟩ ⟨b', h'⟩ ∧
    ∀ p, result = some p → ∃ d, d? = some d ∧ d.Sound s ∧ d.Made h' (.reference p)

private theorem answers_of_builds {kind : ObjectKind}
    {steps : Build (Ref kind)} {result : Option Placed} {d? : Option Draft} {d : Draft}
    (drafted : d? = some d) (sound : d.Sound s)
    (builds : Construction.Builds s ⟨x.builder, h⟩ steps fun r y => d.Made y.history (.reference r.placed))
    (ran : runFrom x.builder (steps >>= fun r => pure (some r.placed)) = (.ok result, b')) :
    Answers s x h d? result b' := by
  obtain ⟨r, b₁, created, returns⟩ := runFrom_bind_eq_ok_iff.mp ran
  obtain ⟨rfl, rfl⟩ := runFrom_pure_eq_ok_iff.mp returns
  obtain ⟨h', continues, made⟩ := builds.of_ok created
  refine ⟨h', continues, fun p same => ?_⟩
  obtain rfl := Option.some.inj same
  exact ⟨d, drafted, sound, made⟩

/-- A call that is not made, or that asks for nothing to be built. -/
private theorem State.Means.answers_of_pure (means : x.Means s m h) {result : Option Placed}
    {d? : Option Draft} (ran : runFrom x.builder (pure none) = (.ok result, b')) :
    Answers s x h d? result b' := by
  obtain ⟨rfl, rfl⟩ := runFrom_pure_eq_ok_iff.mp ran
  exact ⟨h, .refl means.firm, nofun⟩

/-- The elements of a reference vector that is created are all of its kind. -/
private theorem State.Means.kinds_of_vector (means : x.Means s m h) {element : ElementKind}
    {target : ObjectKind} {offsets : List Placed} {result : Option Placed}
    (ran : runFrom x.builder (do return some (← createReferenceVector element target offsets).placed) =
      (.ok result, b')) : ∀ p ∈ offsets, p.kind = target := by
  obtain ⟨r, b₁, created, _⟩ := runFrom_bind_eq_ok_iff.mp ran
  exact fun p member => (((createReferenceVector_does means.firm.builder _ _ _).of_ok created).2.2.2.1 p member).2

private theorem State.Means.answers_strings (means : x.Means s m h) {items : List Source}
    (proper : ∀ item ∈ items, item.Own) {result : Option Placed}
    (ran : runFrom x.builder ((Call.strings items).steps s x.answers) = (.ok result, b')) :
    Answers s x h ((Call.strings items).draft? s m.forced m.drafts) result b' := by
  rw [Call.steps, Call.vectorOf] at ran
  split at ran
  · exact means.answers_of_pure ran
  · rename_i offsets given
    have kinds := means.kinds_of_vector ran
    obtain ⟨texts, drafted, elements⟩ := means.exists_drafts (f := Draft.text?)
      (R := fun p text => ⟨p.rev, .string text⟩ ∈ h) (fun d p _ made kind => by
        cases made with
        | string object => exact ⟨_, rfl, object⟩
        | scalars _ same | strings _ same | table same | tables _ same => cases kind.symm.trans same)
      proper given kinds
    rw [← map_placed kinds] at ran
    refine answers_of_builds (d := .strings texts) (congrArg (Option.map Draft.strings) drafted)
      .strings ((means.firm.createStringVector fun r member => ?_).mono fun r y continues object => ?_) ran
    · obtain ⟨p, inOffsets, rfl⟩ := List.mem_map.mp member
      obtain ⟨i, rfl⟩ := List.mem_iff_get.mp inOffsets
      exact ⟨_, elements.get i.isLt (elements.length_eq ▸ i.isLt)⟩
    · exact .strings object rfl (List.forall₂_map_left_iff.mpr
        (elements.imp fun p text known => continues.history known))

private theorem State.Means.answers_tables (means : x.Means s m h) {items : List Source}
    (proper : ∀ item ∈ items, item.Own) {result : Option Placed}
    (ran : runFrom x.builder ((Call.tables items).steps s x.answers) = (.ok result, b')) :
    Answers s x h ((Call.tables items).draft? s m.forced m.drafts) result b' := by
  rw [Call.steps, Call.vectorOf] at ran
  split at ran
  · exact means.answers_of_pure ran
  · rename_i offsets given
    have kinds := means.kinds_of_vector ran
    obtain ⟨drafts, drafted, elements⟩ := means.exists_drafts (f := Draft.table?)
      (R := fun p t => t.Sound s ∧ t.Made h p.rev) (fun d p sound made kind => by
        cases made with
        | table _ made =>
          cases sound with
          | table sound => exact ⟨_, rfl, sound, made⟩
        | string _ same | scalars _ same | strings _ same | tables _ same => cases kind.symm.trans same)
      proper given kinds
    rw [← map_placed kinds] at ran
    refine answers_of_builds (d := .tables drafts) (congrArg (Option.map Draft.tables) drafted)
      (.tables fun t member => ?_)
      ((means.firm.createTableVector fun r member => ?_).mono fun r y continues object => ?_) ran
    · obtain ⟨p, _, sound, _⟩ := exists_of_mem_right elements member
      exact sound
    · obtain ⟨p, inOffsets, rfl⟩ := List.mem_map.mp member
      obtain ⟨i, rfl⟩ := List.mem_iff_get.mp inOffsets
      obtain ⟨a, isTable, _⟩ := (elements.get i.isLt (elements.length_eq ▸ i.isLt)).2.known
      exact ⟨a, isTable⟩
    · refine .tables object rfl (by rw [List.length_map, elements.length_eq]) fun i r t isRef item => ?_
      rw [List.getElem?_map, Option.map_eq_some_iff] at isRef
      obtain ⟨p, isOffset, rfl⟩ := isRef
      obtain ⟨inside, rfl⟩ := List.getElem?_eq_some_iff.mp isOffset
      obtain ⟨inside', rfl⟩ := List.getElem?_eq_some_iff.mp item
      exact (elements.get inside inside').2.mono continues.history

private theorem State.Means.answers_table (means : x.Means s m h) (valid : s.Valid)
    (declared : m.Declared calls) {entries : List Entry}
    (proper : ∀ e ∈ entries.filter fun e => !e.refused s x.answers id, e.Proper s calls id)
    {result : Option Placed}
    (ran : runFrom x.builder ((Call.table id entries).steps s x.answers) = (.ok result, b')) :
    Answers s x h (((Call.table id entries).trim s x.answers).draft? s m.forced m.drafts) result b' := by
  rw [Call.steps] at ran
  split at ran
  · exact means.answers_of_pure ran
  · rename_i adds given
    obtain ⟨new, b₁, lifted, creates⟩ := runFrom_bind_eq_ok_iff.mp ran
    obtain ⟨created, rfl⟩ := runFrom_lift_eq_ok_iff.mp lifted
    obtain ⟨fits, table⟩ := TableArgs.new_fits created
    obtain ⟨t, known, _⟩ := fits.table
    rw [table] at known
    obtain rfl : new = .blank s id :=
      Except.ok.inj (created.symm.trans (TableArgs.new_eq_blank known))
    have heeds := means.heeds declared created (mapM_eq_some_iff.mp given) proper
      (TableArgs.blank_heeds h (by rw [known]; rfl))
    rw [List.nil_append] at heeds
    have builds := means.firm.createTable_of_holds valid heeds.holds heeds.typed_settled
    refine answers_of_builds rfl (.table (heeds.sound_kept valid m.forced))
      (builds.mono fun r y continues object => .table rfl ?_) creates
    rw [show x.builder.forceDefaults = m.forced from means.forced] at object
    exact (heeds.holds.mono continues.history).made_kept object

private theorem State.Means.answers_json (means : x.Means s m h) (valid : s.Valid) {value : Json}
    (proper : (Call.json id value).Proper s calls) {result : Option Placed}
    (ran : runFrom x.builder ((Call.json id value).steps s x.answers) = (.ok result, b')) :
    Answers s x h ((Call.json id value).draft? s m.forced m.drafts) result b' := by
  have realizes := buildTable_realizes s id value
  cases read : s.draftTable? id value with
  | none =>
    rw [read] at realizes
    obtain ⟨r, b₁, built, _⟩ := runFrom_bind_eq_ok_iff.mp ran
    obtain ⟨e, b₂, fails⟩ := realizes x.builder
    cases built.symm.trans fails
  | some t =>
    rw [read] at realizes
    have sound := Schema.sound_of_draftTable? s value proper read
    have builds := build_builds valid t means.firm sound.settable
    rw [← show buildTable s id value = t.build s from realizes,
      show x.builder.forceDefaults = m.forced from means.forced] at builds
    exact answers_of_builds (d := .table (t.stored s m.forced))
      (by simp only [Call.draft?, read, Option.map_some]) (.table sound.stored)
      (builds.mono fun r y _ made => .table rfl made) ran

/-- A call that succeeds builds what it means. -/
private theorem State.Means.answers (means : x.Means s m h) (valid : s.Valid) (declared : m.Declared calls)
    (proper : (c.trim s x.answers).Proper s calls) (other : ∀ on, c ≠ .force on) {result : Option Placed}
    (ran : runFrom x.builder (c.steps s x.answers) = (.ok result, b')) :
    Answers s x h ((c.trim s x.answers).draft? s m.forced m.drafts) result b' := by
  have firm := means.firm
  cases c with
  | string text =>
    exact answers_of_builds rfl .string ((firm.createString text).mono fun r y _ object =>
      .string object rfl) ran
  | vector t items =>
    obtain ⟨r, b₁, created, _⟩ := runFrom_bind_eq_ok_iff.mp ran
    have typed := ((createVector_does firm.builder t items).of_ok created).2.1.typed
    exact answers_of_builds rfl (.scalars typed) ((firm.createVector typed).mono fun r y _ object =>
      .scalars object rfl) ran
  | strings items => exact means.answers_strings proper ran
  | tables items => exact means.answers_tables proper ran
  | table id entries => exact means.answers_table valid declared proper ran
  | json id value => exact means.answers_json valid proper ran
  | force on => exact absurd rfl (other on)
  | skip => exact means.answers_of_pure ran

/-- One more call, without what is refused: the builder holds what it means. -/
theorem State.Means.call (means : x.Means s m h) (valid : s.Valid) (declared : m.Declared calls)
    (c : Call) {result : Except BuildError (Option Placed)}
    (ran : runFrom x.builder (c.steps s x.answers) = (result, b'))
    (proper : (∃ r, result = .ok r) → (c.trim s x.answers).Proper s calls) {last : Option Draft}
    (drafted : (∃ r, result = .ok r) → last = (c.trim s x.answers).draft? s m.forced m.drafts) :
    ∃ h', State.Means s ⟨c.forces m.forced, m.drafts ++ [last]⟩ h' (x.call s c) := by
  rw [State.call_eq ran]
  by_cases isForce : ∃ on, c = .force on
  · obtain ⟨on, rfl⟩ := isForce
    cases ran
    exact ⟨h, (means.force on).next (.refl (means.force on).firm) nofun fun _ _ => rfl⟩
  · have other := not_exists.mp isForce
    have forces : c.forces m.forced = m.forced := by
      cases c with
      | force on => exact absurd rfl (other on)
      | string text | vector t items | strings items | tables items | table id entries | json id value
      | skip => rfl
    rw [forces]
    cases result with
    | error e =>
      have follows := Call.steps_orderly valid x.answers other x.builder means.firm.builder
      rw [ran] at follows
      exact ⟨h, means.next (means.follows follows) nofun fun _ _ => rfl⟩
    | ok r =>
      obtain ⟨h', continues, made⟩ := means.answers valid declared (proper ⟨r, rfl⟩) other ran
      refine ⟨h', means.next continues (fun p same => ?_) nofun⟩
      rw [drafted ⟨r, rfl⟩]
      exact made p (Except.ok.inj same)

end
end FlatTable.Script

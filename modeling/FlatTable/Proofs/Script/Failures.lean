import FlatTable.Proofs.Script.Calls

/-! Calls that fail are invisible: what is finished after a script shows the same as what is finished after
the script without the calls that failed. -/
namespace FlatTable.Script
open Build Builder Construction Layout

section
variable {s : Schema} {calls : List Call} {m : Meaning} {h : History} {x x' : State}

/-! ### Calls one after the other -/

/-- What is left of a call forces defaults as the call does. -/
private theorem Call.forces_keep (x : State) (c : Call) (forced : Bool) :
    (x.keep s c).forces forced = c.forces forced := by
  cases c with
  | force on => rfl
  | string text | vector t items | strings items | tables items | table id entries | json id value | skip =>
    rw [State.keep]
    split <;> rfl

/-- A builder holds what is left of a call. -/
theorem State.Means.call_keep (means : x.Means s m h) (valid : s.Valid) (declared : m.Declared calls)
    {c : Call} (proper : (x.keep s c).Proper s calls) :
    ∃ h', (x.call s c).Means s (m.call s (x.keep s c)) h' := by
  have keeps {r : Option Placed} (ok : (runFrom x.builder (c.steps s x.answers)).1 = .ok r) :
      x.keep s c = c.trim s x.answers := by
    rw [State.keep, ok]
  rw [Meaning.call, Call.forces_keep]
  cases ran : runFrom x.builder (c.steps s x.answers) with
  | mk result b' =>
    rw [ran] at keeps
    refine means.call valid declared c ran (fun ⟨r, ok⟩ => keeps ok ▸ proper) fun ⟨r, ok⟩ => ?_
    rw [keeps ok]

/-- A builder holds what its calls mean. -/
theorem State.Means.call_self (means : x.Means s m h) (valid : s.Valid) (declared : m.Declared calls)
    {c : Call} (proper : c.Proper s calls) : ∃ h', (x.call s c).Means s (m.call s c) h' := by
  cases ran : runFrom x.builder (c.steps s x.answers) with
  | mk result b' =>
    exact means.call valid declared c ran (fun _ => proper.trim x.answers) fun _ =>
      (means.draft?_trim declared proper m.forced).symm

section
variable (valid : s.Valid) (proper : ∀ c ∈ calls, c.Proper s calls)
include proper

/-- The call that is next in a script. -/
private theorem next_of_drop {n : Nat} {c : Call} {rest : List Call} (here : calls.drop n = c :: rest) :
    calls[n]? = some c ∧ c.Proper s calls ∧ calls.drop (n + 1) = rest := by
  have first : calls[n]? = some c := by
    rw [← List.head?_drop, here, List.head?_cons]
  refine ⟨first, proper c (List.mem_of_getElem? first), ?_⟩
  rw [← List.drop_drop, here, List.drop_one, List.tail_cons]

include valid

/-- A builder holds what is left of a script, whatever else it has been asked for. -/
theorem State.Means.play_kept (script : List Call) (means : x.Means s m h) (declared : m.Declared calls)
    (here : calls.drop m.drafts.length = x.kept s script) :
    ∃ h', (x.play s script).Means s (m.play s (x.kept s script)) h' ∧
      (m.play s (x.kept s script)).Declared calls := by
  induction script generalizing x m h with
  | nil => exact ⟨h, means, declared⟩
  | cons c rest ih =>
    obtain ⟨first, isProper, later⟩ := next_of_drop proper here
    obtain ⟨h', means'⟩ := means.call_keep valid declared isProper
    exact ih means' (declared.call first) (by rw [Meaning.call, List.length_append]; exact later)

/-- A builder holds what its script means. -/
theorem State.Means.play (script : List Call) (means : x.Means s m h) (declared : m.Declared calls)
    (here : calls.drop m.drafts.length = script) :
    ∃ h', (x.play s script).Means s (m.play s script) h' ∧ (m.play s script).Declared calls := by
  induction script generalizing x m h with
  | nil => exact ⟨h, means, declared⟩
  | cons c rest ih =>
    obtain ⟨first, isProper, later⟩ := next_of_drop proper here
    obtain ⟨h', means'⟩ := means.call_self valid declared isProper
    exact ih means' (declared.call first) (by rw [Meaning.call, List.length_append]; exact later)

end

/-! ### What is given, and what is finished -/

/-- The offsets that have been given may be used: their objects have been placed, refer only to one another,
and share no byte with what failed calls have left. -/
structure State.Usable (x : State) (h : History) : Prop where
  placed : ∀ a ∈ x.answers, ∀ p, a.offset? = some p → p ∈ x.builder.placed ∧ ∃ c ∈ h, c.placed = p
  laid : ∀ c ∈ h, x.builder.Laid c
  grounded : h.Grounded
  clear : ∀ a ∈ x.answers, a.Failed → a.Clear x.builder h

theorem State.Means.usable (means : x.Means s m h) : x.Usable h where
  placed a member p given := by
    obtain ⟨n, isAnswer⟩ := List.mem_iff_getElem?.mp member
    obtain ⟨d, _, _, made⟩ := means.made (.call n) p trivial (by rw [Source.offset?, isAnswer]; exact given)
    obtain ⟨c, object, kind⟩ := made.known
    have isPlaced : (⟨p.rev, c⟩ : Creation).placed = p := congrArg (Placed.mk p.rev) kind
    exact ⟨isPlaced ▸ means.firm.placed _ object, _, object, isPlaced⟩
  laid := means.firm.laid
  grounded := means.firm.grounded
  clear := means.clear

/-- An offset of a table leads to the table that its call means. -/
theorem State.Means.exists_table (means : x.Means s m h) {root : Source} (own : root.Own) {r : Nat}
    (given : root.offset? x.answers = some ⟨r, .table⟩) :
    ∃ t, root.draft? m.drafts = some (.table t) ∧ t.Sound s ∧ t.Made h r := by
  obtain ⟨d, drafted, sound, made⟩ := means.made root _ own given
  cases made with
  | table kind made =>
    cases sound with
    | table sound => exact ⟨_, drafted, sound, made⟩
  | string _ kind | scalars _ kind | strings _ kind | tables _ kind => cases kind

theorem State.exists_of_finish {root : Ref .table} {identifier : Option Identifier} {f : FinishedBuffer}
    (finished : x.finish root identifier = .ok f) :
    ∃ b, runFrom x.builder (Builder.finish root identifier) = (.ok f, b) :=
  ⟨_, Prod.ext finished rfl⟩

/-- Two buffers show the same at their roots, as the table `id`, and a verifier accepts both of them or
neither, unless its limit lies between their sizes or it asks for an identifier that has not been given. -/
def Same (s : Schema) (identifier : Option Identifier) (id : Nat) (b b' : Buffer) : Prop :=
  ∃ position position', b.rootPosition? = some position ∧ b'.rootPosition? = some position' ∧
    s.tableJson ⟨b, position⟩ id = s.tableJson ⟨b', position'⟩ id ∧
    b.size ≤ maxBufferSize ∧ b'.size ≤ maxBufferSize ∧
    ∀ v : Verifier, v.schema = s → v.root? = some id → v.identifier = none ∨ identifier ≠ none →
      (b.size ≤ v.options.maxBufferSize ↔ b'.size ≤ v.options.maxBufferSize) →
        (v.verify b = .ok ⟨position, id⟩ ↔ v.verify b' = .ok ⟨position', id⟩)

/-- Buffers that deliver the same are the same. -/
theorem same_of_delivers {b b' : Buffer} {identifier : Option Identifier} {position position' : Nat}
    {t : TableDraft} (delivers : b.Delivers s identifier position t)
    (delivers' : b'.Delivers s identifier position' t) : Same s identifier t.id b b' :=
  ⟨position, position', delivers.place, delivers'.place, delivers.shown.trans delivers'.shown.symm,
    delivers.small, delivers'.small, fun _ => delivers.verify_iff delivers' rfl fun _ => rfl⟩

end

/-- Calls that fail are invisible, if what is left of the script uses offsets of its own run, and tables only
where they are declared. All offsets that the run has given stay usable, and lead to nothing that a failed
call has left. What is finished shows the same, and is accepted by the same verifiers, as what is finished
after the calls that are left, on whatever storage. -/
theorem finish_kept {s : Schema} (validated : s.validate = .ok ()) (script : List Call)
    (storage storage' : Storage)
    (proper : ∀ c ∈ (State.start storage).kept s script,
      c.Proper s ((State.start storage).kept s script)) :
    let left := (State.start storage).kept s script
    let x := (State.start storage).play s script
    let x' := (State.start storage').play s left
    (∃ h, x.Usable h) ∧
      ∀ (root : Source) r r' identifier f f', root.Own →
        root.offset? x.answers = some ⟨r, .table⟩ → root.offset? x'.answers = some ⟨r', .table⟩ →
          x.finish ⟨r⟩ identifier = .ok f → x'.finish ⟨r'⟩ identifier = .ok f' →
            ∃ id, root.table? left = some id ∧ Same s identifier id f.data f'.data := by
  have valid := Schema.valid_of_validate validated
  have declared := Meaning.start_declared ((State.start storage).kept s script)
  obtain ⟨h, means, declared'⟩ := (State.start_means s storage).play_kept valid proper script declared rfl
  obtain ⟨h', means', _⟩ := (State.start_means s storage').play valid proper _ declared rfl
  refine ⟨⟨h, means.usable⟩, fun root r r' identifier f f' own given given' finished finished' => ?_⟩
  obtain ⟨t, drafted, sound, made⟩ := means.exists_table own given
  obtain ⟨t', drafted', _, made'⟩ := means'.exists_table own given'
  obtain rfl := Draft.table.inj (Option.some.inj (drafted.symm.trans drafted'))
  obtain ⟨b, ran⟩ := State.exists_of_finish finished
  obtain ⟨b', ran'⟩ := State.exists_of_finish finished'
  exact ⟨t.id, declared'.table root t drafted,
    same_of_delivers (means.firm.finish_of_made valid sound made ran)
      (means'.firm.finish_of_made valid sound made' ran')⟩

/-! ### Two scripts -/

def labels : Schema where
  nameSpace := ""
  attributes := []
  enums := #[]
  structs := #[]
  tables := #[⟨"Label", #[.plain "name" .string]⟩]
  root := some 0

def brokenLabel : Json := .object [("name", .string "ab"), ("zone", .integer 1)]

def labelScript : List Call :=
  [.json 0 brokenLabel, .string "cd",
    .table 0 [.reference "name" (.call 1), .scalar "name" (ScalarType.int.value 7)]]

def played (s : Schema) (script : List Call) : State := (State.start (.zeros 0 .standard)).play s script

def left (s : Schema) (script : List Call) : List Call := (State.start (.zeros 0 .standard)).kept s script

theorem labelScript_kept :
    labels.validate = .ok () ∧ (∀ c ∈ left labels labelScript, c.Proper labels (left labels labelScript)) ∧
      ∃ f f', (played labels labelScript).finish ⟨24⟩ none = .ok f ∧
        (played labels (left labels labelScript)).finish ⟨16⟩ none = .ok f' ∧
          ∃ id, (Source.call 2).table? (left labels labelScript) = some id ∧
            Same labels none id f.data f'.data := by
  have proper : ∀ c ∈ left labels labelScript, c.Proper labels (left labels labelScript) := by
    decide +kernel
  have given : (Source.call 2).offset? (played labels labelScript).answers = some ⟨24, .table⟩ := by
    decide +kernel
  have given' : (Source.call 2).offset? (played labels (left labels labelScript)).answers =
      some ⟨16, .table⟩ := by decide +kernel
  have finishes : ((played labels labelScript).finish ⟨24⟩ none).toOption.isSome := by decide +kernel
  have finishes' : ((played labels (left labels labelScript)).finish ⟨16⟩ none).toOption.isSome := by
    decide +kernel
  obtain ⟨f, finished⟩ := Option.isSome_iff_exists.mp finishes
  obtain ⟨f', finished'⟩ := Option.isSome_iff_exists.mp finishes'
  rw [toOption_eq_some_iff] at finished finished'
  exact ⟨rfl, proper, f, f', finished, finished',
    (finish_kept rfl labelScript (.zeros 0 .standard) (.zeros 0 .standard) proper).2 (.call 2) 24 16 none f f'
      trivial given given' finished finished'⟩

/-- The label is named by an offset that another builder has given. -/
def strayScript : List Call :=
  [.json 0 brokenLabel, .string "cd", .table 0 [.reference "name" (.foreign ⟨8, .string⟩)]]

def shown (x : State) (root : Ref .table) : Option String := do
  let f ← (x.finish root none).toOption
  let position ← f.data.rootPosition?
  return (labels.tableJson ⟨f.data, position⟩ 0).text

def admitted (s : Schema) (x : State) (root : Ref .table) (most : Nat) : Option Bool := do
  let f ← (x.finish root none).toOption
  let v : Verifier := ⟨s, { VerifierOptions.standard with maxBufferSize := most }, none, none⟩
  return (v.verify f.data).isOk

/-- The other builder's offset leads to what the failed call has left, and to another string without that
call. And what a failed call has left counts for the size of the buffer. -/
theorem strayScript_shown :
    labels.validate = .ok () ∧
      shown (played labels strayScript) ⟨24⟩ = some "\x7b\"name\":\"ab\"\x7d" ∧
        shown (played labels (left labels strayScript)) ⟨16⟩ = some "\x7b\"name\":\"cd\"\x7d" ∧
          admitted labels (played labels labelScript) ⟨24⟩ 31 = some false ∧
            admitted labels (played labels (left labels labelScript)) ⟨16⟩ 31 = some true :=
  ⟨rfl, by decide +kernel⟩

end FlatTable.Script

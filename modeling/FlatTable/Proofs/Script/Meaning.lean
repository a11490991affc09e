import FlatTable.Proofs.Convert.Asked
import FlatTable.Proofs.Convert.Reread
import FlatTable.Proofs.Script.Kept

/-! What a script means, whatever storage it is played on: the drafts that its offsets stand for. -/
namespace FlatTable

namespace Draft

def text? : Draft → Option String
  | .string text => some text
  | _ => none

def table? : Draft → Option TableDraft
  | .table t => some t
  | _ => none

end Draft

namespace Script

/-! ### What calls come to -/

def Source.draft? (drafts : List (Option Draft)) : Source → Option Draft
  | call number => drafts[number]?.join
  | foreign _ => none

def Entry.draft? (s : Schema) (id : Nat) (drafts : List (Option Draft)) :
    Entry → Option (Nat × Draft)
  | scalar name v => s.asked? id name (.scalar v)
  | struct name values => s.asked? id name (.struct values)
  | reference name source => (source.draft? drafts).bind (s.asked? id name)

def Call.draft? (s : Schema) (forced : Bool) (drafts : List (Option Draft)) : Call → Option Draft
  | string text => some (.string text)
  | vector t items => some (.scalars t items)
  | strings items =>
    (items.mapM fun item : Source => (item.draft? drafts).bind Draft.text?).map .strings
  | tables items =>
    (items.mapM fun item : Source => (item.draft? drafts).bind Draft.table?).map .tables
  | table id entries =>
    let asked := entries.filterMap (Entry.draft? s id drafts)
    some (.table (.mk id (Draft.kept s forced id (s.settled id asked))))
  | json id value => (s.draftTable? id value).map fun t => .table (t.stored s forced)
  | force _ | skip => none

def Call.forces : Call → Bool → Bool
  | force on, _ => on
  | _, forced => forced

/-- Whether defaults are forced, and what the offsets that calls were answered with stand for. -/
structure Meaning where
  forced : Bool
  drafts : List (Option Draft)

namespace Meaning

def start : Meaning := ⟨false, []⟩

def call (s : Schema) (m : Meaning) (c : Call) : Meaning :=
  ⟨c.forces m.forced, m.drafts ++ [c.draft? s m.forced m.drafts]⟩

def play (s : Schema) (m : Meaning) (calls : List Call) : Meaning := calls.foldl (call s) m

end Meaning

/-! ### What is known of it beforehand -/

section
variable {s : Schema} {calls : List Call} {m : Meaning} {source : Source} {d : Draft}

/-- An offset that has a draft is an earlier one or the last one. -/
theorem Source.draft?_append {drafts : List (Option Draft)} {last : Option Draft} :
    source.draft? (drafts ++ [last]) = some d ↔
      source.draft? drafts = some d ∨ source = .call drafts.length ∧ last = some d := by
  cases source with
  | foreign p => simp [Source.draft?]
  | call number =>
    simp only [Source.draft?, Source.call.injEq]
    rcases Nat.lt_trichotomy number drafts.length with before | rfl | after
    · simp [List.getElem?_append_left before, Nat.ne_of_lt before]
    · simp
    · rw [List.getElem?_eq_none (by rw [List.length_append]; exact after),
        List.getElem?_eq_none (Nat.le_of_lt after)]
      simp [Nat.ne_of_gt after]

/-- The tables that drafts lead to are those that the script declares. -/
structure Meaning.Declared (calls : List Call) (m : Meaning) : Prop where
  table : ∀ (source : Source) t, source.draft? m.drafts = some (.table t) →
    source.table? calls = some t.id
  tables : ∀ (source : Source) d, source.draft? m.drafts = some d →
    ∀ id ∈ d.tableIds, id ∈ source.tables calls

theorem Meaning.start_declared (calls : List Call) : start.Declared calls where
  table source t drafted := by cases source <;> simp [start, Source.draft?] at drafted
  tables source d drafted := by cases source <;> simp [start, Source.draft?] at drafted

/-- The script tells what a table is. -/
private theorem Call.table?_of_draft? {forced : Bool} {drafts : List (Option Draft)} {c : Call}
    {t : TableDraft} (drafted : c.draft? s forced drafts = some (.table t)) :
    c.table? = some t.id := by
  cases c with
  | string text | vector type items => cases drafted
  | strings items | tables items =>
    obtain ⟨_, _, same⟩ := Option.map_eq_some_iff.mp drafted
    cases same
  | table id entries =>
    cases drafted
    rfl
  | json id value =>
    obtain ⟨t', read, same⟩ := Option.map_eq_some_iff.mp drafted
    cases same
    rw [TableDraft.id_stored, Schema.id_of_draftTable? read]
    rfl
  | force on | skip => cases drafted

/-- One more call. -/
theorem Meaning.Declared.call (declared : m.Declared calls) {c : Call}
    (here : calls[m.drafts.length]? = some c) : (m.call s c).Declared calls := by
  refine ⟨fun source t drafted => ?_, fun source d drafted id member => ?_⟩
  · rcases Source.draft?_append.mp drafted with before | ⟨rfl, last⟩
    · exact declared.table source t before
    · rw [Source.table?, here]
      exact Call.table?_of_draft? last
  · rcases Source.draft?_append.mp drafted with before | ⟨rfl, last⟩
    · exact declared.tables source d before id member
    · rw [Source.tables, here]
      cases d with
      | scalar v | struct values | string text | scalars t items | strings texts => cases member
      | table t =>
        obtain rfl := List.mem_singleton.mp member
        have isTable := Call.table?_of_draft? last
        cases c with
        | table id entries | json id value => simpa [Call.table?] using isTable.symm
        | string text | vector t items | strings items | tables items | force on | skip =>
          cases isTable
      | tables items =>
        cases c with
        | tables sources =>
          obtain ⟨read, elements, same⟩ := Option.map_eq_some_iff.mp last
          cases same
          obtain ⟨t, inItems, rfl⟩ := List.mem_map.mp member
          obtain ⟨source, inSources, read⟩ :=
            exists_of_mem_right (mapM_eq_some_iff.mp elements) inItems
          obtain ⟨d, isDraft, isTable⟩ := Option.bind_eq_some_iff.mp read
          refine List.mem_filterMap.mpr ⟨source, inSources, declared.table source t ?_⟩
          cases d with
          | table t' =>
            obtain rfl := Option.some.inj isTable
            exact isDraft
          | scalar v | struct values | string text | scalars t items | strings texts
          | tables items => cases isTable
        | strings sources =>
          obtain ⟨_, _, same⟩ := Option.map_eq_some_iff.mp last
          cases same
        | json id value =>
          obtain ⟨_, _, same⟩ := Option.map_eq_some_iff.mp last
          cases same
        | string text | vector t items | table id entries | force on | skip => cases last

end
end Script
end FlatTable

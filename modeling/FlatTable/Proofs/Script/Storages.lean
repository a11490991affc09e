import FlatTable.Proofs.Builder.Lockstep
import FlatTable.Proofs.Builder.Roomy
import FlatTable.Proofs.Convert.Composed
import FlatTable.Proofs.Convert.Draft
import FlatTable.Proofs.Script.Basic

/-! One script, played on two storages that differ in what they hold, in how large they are and in how they
grow. As long as neither refuses to grow, all calls are answered alike and the finished bytes are the same,
except for four bytes for each table that was given up after room had been left in it. -/
namespace FlatTable
open Layout Build Builder

namespace Build

/-- Creating objects leads builders that agree to the same answer, and so does building from JSON. -/
theorem steady_composes (s : Schema) : Composes s (Steady BuildError.Abandons) where
  pure := .of_pure
  throw := .of_throw
  bind first next := first.bind_returns next
  string := createString_steady
  vector := createVector_steady
  references := createReferenceVector_steady
  table a _ := createTable_steady a

end Build

def FinishedBuffer.behind (f : FinishedBuffer) (i : Nat) : Nat := f.allocated - f.head - 1 - i

namespace Builder
variable {gaps : List Nat} {b b' : Builder}

/-- Builders that agree hold the same finished bytes outside the gaps. -/
theorem Agree.data (agree : Agree gaps b b') {i : Nat}
    (outside : ∀ gap ∈ gaps, ¬ InGap gap (b.finished.behind i)) :
    b'.finished.data[i]? = b.finished.data[i]? := by
  have size := b.used.size_eq
  have same := agree.bytes _ outside
  have used : b.finished.allocated - b.finished.head = b.used.size := Nat.add_sub_cancel_left _ _
  rw [FinishedBuffer.behind, used, size] at same
  simp only [Builder.finished, List.getElem?_toArray, List.getElem?_take, agree.size, agree.trailingPad]
  split
  · rw [List.getElem?_reverse (by rw [agree.length]; omega), List.getElem?_reverse (by omega),
      agree.length] at same
    rwa [show b.used.bytes.length - 1 - (b.used.bytes.length - 1 - i) = i by omega] at same
  · rfl

end Builder

namespace Script
variable {s : Schema}

def Answer.Leaves (a : Answer) (gap : Nat) : Prop :=
  (∃ e, a.result = .error e ∧ e.Abandons) ∧ a.before + offsetSize ≤ gap ∧ gap ≤ a.after

def Leave (answers : List Answer) (gaps : List Nat) : Prop :=
  ∃ stopped, stopped.Sublist answers ∧ List.Forall₂ Answer.Leaves stopped gaps

private theorem Call.vectorOf_steady (answers : List Answer) (element : ElementKind) (target : ObjectKind)
    (items : List Source) : (Call.vectorOf answers element target items).Steady BuildError.Abandons := by
  unfold vectorOf
  split
  · exact .of_pure _
  · exact (createReferenceVector_steady _ _ _).bind fun _ => .of_pure _

theorem Call.steps_steady (s : Schema) (answers : List Answer) (c : Call) :
    (c.steps s answers).Steady BuildError.Abandons := by
  have composes := steady_composes s
  cases c with
  | string text => exact (createString_steady text).bind fun _ => .of_pure _
  | vector t items => exact (createVector_steady t items).bind fun _ => .of_pure _
  | strings items => exact vectorOf_steady _ _ _ _
  | tables items => exact vectorOf_steady _ _ _ _
  | table id entries =>
    rw [steps]
    split
    · exact .of_pure _
    · exact (composes.lift _).bind fun _ => (createTable_steady _).bind fun _ => .of_pure _
  | json id value => exact (composes.buildTable id value).bind fun _ => .of_pure _
  | force on =>
    refine Steady.bind (.of_modify (fun _ _ _ agree => ?_) fun _ => Nat.le_refl _) fun _ => .of_pure _
    exact { agree with forceDefaults := rfl }
  | skip => exact .of_pure _

namespace State
variable {x x' : State}

/-- The runs have been answered alike, and their builders agree outside of gaps that were left. -/
structure Abreast (x x' : State) : Prop where
  answers : x'.answers = x.answers
  builders : ∃ gaps, Leave x.answers gaps ∧ Agree gaps x.builder x'.builder

theorem start_abreast (storage storage' : Storage) : Abreast (start storage) (start storage') :=
  ⟨rfl, [], ⟨[], .slnil, .nil⟩, .ofStorage storage storage'⟩

theorem answers_append (x : State) (calls : List Call) : x.answers <+: (x.play s calls).answers := by
  induction calls generalizing x with
  | nil => exact List.prefix_rfl
  | cons c calls ih => exact (List.prefix_append _ _).trans (ih (x.call s c))

/-- One call on both storages. -/
theorem Abreast.call (abreast : Abreast x x') (c : Call)
    (granted : ∀ a ∈ (x.call s c).answers, ¬ Refused a.result)
    (granted' : ∀ a ∈ (x'.call s c).answers, ¬ Refused a.result) :
    Abreast (x.call s c) (x'.call s c) := by
  obtain ⟨same, gaps, ⟨stopped, sublist, leaves⟩, agree⟩ := abreast
  have together := Call.steps_steady s x.answers c gaps _ _ agree
  cases ran : runFrom x.builder (c.steps s x.answers) with
  | mk result b =>
    cases ran' : runFrom x'.builder (c.steps s x.answers) with
    | mk result' b' =>
      rw [ran, ran'] at together
      rw [call_eq ran] at granted ⊢
      rw [call_eq (same.symm ▸ ran'), same] at granted' ⊢
      rw [agree.size]
      cases together with
      | refused either =>
        rcases either with refused | refused
        · exact absurd refused (granted _ (List.mem_append_right _ List.mem_cons_self))
        · exact absurd refused (granted' _ (List.mem_append_right _ List.mem_cons_self))
      | same _ grows agree =>
        refine ⟨by simp only [agree.size], gaps, ⟨stopped, ?_, leaves⟩, agree⟩
        exact sublist.trans (List.sublist_append_left _ _)
      | @stopped e gap _ _ stop behind inside agree =>
        refine ⟨by simp only [agree.size], gaps ++ [gap], ⟨stopped ++ [⟨.error e, x.builder.used.size,
          b.used.size⟩], sublist.append (List.Sublist.refl _), ?_⟩, ?_⟩
        · refine List.rel_append leaves (.cons ⟨⟨e, rfl, stop⟩, ?_, ?_⟩ .nil)
          · rwa [x.builder.used.size_eq]
          · rwa [b.used.size_eq]
        · exact agree.of_subset (List.cons_subset.mpr
            ⟨List.mem_append_right _ List.mem_cons_self, List.subset_append_left _ _⟩)

/-- Every run on both storages. -/
theorem Abreast.play (abreast : Abreast x x') (calls : List Call)
    (granted : ∀ a ∈ (x.play s calls).answers, ¬ Refused a.result)
    (granted' : ∀ a ∈ (x'.play s calls).answers, ¬ Refused a.result) :
    Abreast (x.play s calls) (x'.play s calls) := by
  induction calls generalizing x x' with
  | nil => exact abreast
  | cons c calls ih =>
    have earlier (y : State) := (answers_append (y.call s c) calls (s := s)).subset
    have next := abreast.call c (fun a member => granted a (earlier x member))
      fun a member => granted' a (earlier x' member)
    exact ih next granted granted'

end State

/-- Finishing was answered alike: with the same error, or with bytes that differ only in gaps. -/
inductive Alike (answers : List Answer) :
    Except BuildError FinishedBuffer → Except BuildError FinishedBuffer → Prop where
  | failed (e : BuildError) : Alike answers (.error e) (.error e)
  | finished {f f' : FinishedBuffer} {gaps : List Nat} (leave : Leave answers gaps)
    (size : f'.data.size = f.data.size)
    (same : ∀ i, (∀ gap ∈ gaps, ¬ InGap gap (f.behind i)) → f'.data[i]? = f.data[i]?) :
    Alike answers (.ok f) (.ok f')

/-- Where no table was given up the bytes are the same. -/
theorem Alike.map_data {answers : List Answer} {outcome outcome' : Except BuildError FinishedBuffer}
    (alike : Alike answers outcome outcome')
    (complete : ∀ a ∈ answers, ∀ e, a.result = .error e → ¬ e.Abandons) :
    outcome'.map FinishedBuffer.data = outcome.map FinishedBuffer.data := by
  cases alike with
  | failed e => rfl
  | @finished f f' gaps leave size same =>
    obtain ⟨stopped, sublist, leaves⟩ := leave
    have none : gaps = [] := by
      cases leaves with
      | nil => rfl
      | cons left =>
        obtain ⟨⟨e, failed, abandons⟩, _⟩ := left
        exact absurd abandons (complete _ (sublist.subset List.mem_cons_self) e failed)
    refine congrArg Except.ok (Array.ext_getElem? fun i => same i ?_)
    simp [none]

private theorem State.finish_eq (x : State) (root : Ref .table) (identifier : Option Identifier) :
    x.finish root identifier = (runFrom x.builder (pushRoot root identifier)).1.map
      fun _ => (runFrom x.builder (pushRoot root identifier)).2.finished := by
  rw [State.finish, Builder.finish, runFrom_bind]
  rcases runFrom x.builder (pushRoot root identifier) with ⟨_ | _, b⟩ <;> rfl

/-- Builders that agree finish alike. -/
theorem State.Abreast.finish {x x' : State} (abreast : State.Abreast x x') (root : Ref .table)
    (identifier : Option Identifier) (granted : ¬ Refused (x.finish root identifier))
    (granted' : ¬ Refused (x'.finish root identifier)) :
    Alike x.answers (x.finish root identifier) (x'.finish root identifier) := by
  obtain ⟨_, gaps, leave, agree⟩ := abreast
  have together := @pushRoot_steady (fun _ => False) root identifier gaps _ _ agree
  simp only [State.finish_eq, Refused.map_iff] at granted granted' ⊢
  generalize runFrom x.builder (pushRoot root identifier) = ran at *
  generalize runFrom x'.builder (pushRoot root identifier) = ran' at *
  cases together with
  | refused either => exact absurd either (not_or.mpr ⟨granted, granted'⟩)
  | stopped stop => exact stop.elim
  | same result grows agree =>
    cases result with
    | error e => exact .failed e
    | ok _ =>
      refine .finished leave ?_ fun i outside => agree.data outside
      simp only [Builder.finished, List.size_toArray, List.length_take, agree.size, agree.length,
        agree.trailingPad]

/-- Two storages that never refuse to grow lead to the same answers. What is finished is the same outside of
four bytes for each table that was given up after room had been left in it, and all the same if there is none. -/
theorem play_storages (s : Schema) (calls : List Call) (storage storage' : Storage)
    (granted : ∀ a ∈ ((State.start storage).play s calls).answers, ¬ Refused a.result)
    (granted' : ∀ a ∈ ((State.start storage').play s calls).answers, ¬ Refused a.result) :
    let x := (State.start storage).play s calls
    let x' := (State.start storage').play s calls
    x'.answers = x.answers ∧ ∀ root identifier,
      ¬ Refused (x.finish root identifier) → ¬ Refused (x'.finish root identifier) →
        Alike x.answers (x.finish root identifier) (x'.finish root identifier) ∧
          ((∀ a ∈ x.answers, ∀ e, a.result = .error e → ¬ e.Abandons) →
            (x'.finish root identifier).map FinishedBuffer.data =
              (x.finish root identifier).map FinishedBuffer.data) := by
  have abreast := (State.start_abreast storage storage').play calls granted granted'
  refine ⟨abreast.answers, fun root identifier finishes finishes' => ?_⟩
  have alike := abreast.finish root identifier finishes finishes'
  exact ⟨alike, alike.map_data⟩

/-! ### Four bytes that nobody has written -/

def doubles (n : Nat) : StructDef := ⟨"Block", (List.range n).map fun i => ⟨"m" ++ toString i, .double⟩⟩

def numbers (n : Nat) : List Value := List.replicate n ScalarType.double.zero

private theorem type_of_mem_doubles {n : Nat} {m : Member} (member : m ∈ (doubles n).members) :
    m.type = .double := by
  obtain ⟨i, _, rfl⟩ := List.mem_map.mp member
  rfl

private theorem length_doubles (n : Nat) : (doubles n).members.length = n := by
  rw [doubles, List.length_map, List.length_range]

private theorem endFrom_doubles {ms : List Member} (all : ∀ m ∈ ms, m.type = .double) (k : Nat) :
    StructDef.endFrom (8 * k) ms = 8 * (k + ms.length) := by
  induction ms generalizing k with
  | nil => rfl
  | cons m ms ih =>
    obtain ⟨double, rest⟩ := List.forall_mem_cons.mp all
    have packed : padding (8 * k) 8 = 0 := padding_of_dvd (Nat.dvd_refl 8) (Nat.dvd_mul_right 8 k)
    rw [StructDef.endFrom, double, show ScalarType.double.width = 8 from rfl, packed,
      show 8 * k + 0 + 8 = 8 * (k + 1) by omega, ih rest, List.length_cons]
    omega

private theorem doubles_alignment (n : Nat) : (doubles (n + 1)).alignment = 8 := by
  have widths : (doubles (n + 1)).members.map (fun m => m.type.width) = List.replicate (n + 1) 8 := by
    refine List.eq_replicate_iff.mpr ⟨by rw [List.length_map, length_doubles], fun w member => ?_⟩
    obtain ⟨m, inStruct, rfl⟩ := List.mem_map.mp member
    rw [type_of_mem_doubles inStruct]
    rfl
  have most (k : Nat) : (List.replicate k 8).foldl max 8 = 8 := by
    induction k with
    | zero => rfl
    | succ k ih => rw [List.replicate_succ, List.foldl_cons, Nat.max_self, ih]
  rw [StructDef.alignment, widths, List.replicate_succ, List.foldl_cons]
  exact most n

private theorem doubles_size (n : Nat) : (doubles (n + 1)).size = 8 * (n + 1) := by
  have stop := @endFrom_doubles (doubles (n + 1)).members (fun m => type_of_mem_doubles) 0
  rw [Nat.mul_zero, Nat.zero_add, length_doubles] at stop
  have packed : padding (8 * (n + 1)) 8 = 0 := padding_of_dvd (Nat.dvd_refl 8) (Nat.dvd_mul_right 8 _)
  simp only [StructDef.size, stop, doubles_alignment, packed, Nat.add_zero]

private theorem types_of_doubles (n : Nat) :
    (numbers n).map Value.type = (doubles n).members.map Member.type := by
  rw [numbers, List.map_replicate]
  refine (List.eq_replicate_iff.mpr ⟨by rw [List.length_map, length_doubles], fun w member => ?_⟩).symm
  obtain ⟨m, inStruct, rfl⟩ := List.mem_map.mp member
  exact type_of_mem_doubles inStruct

def wide (n : Nat) : Schema :=
  ⟨"", [], #[], #[doubles n], #[⟨"Wide", #[.plain "block" (.struct 0)]⟩, ⟨"Small", #[]⟩], some 1⟩

def wideCalls (n : Nat) : List Call := [.table 0 [.struct "block" (numbers n)], .table 1 []]

def filled (fill : UInt8) (size : Nat) : Storage := ⟨List.replicate size fill, .standard, 0⟩

private theorem addAll_wide (n : Nat) :
    (TableArgs.blank (wide n) 0).addAll [.struct "block" (numbers n)] =
      ⟨wide n, 0, #[some (.struct (numbers n))]⟩ := by
  have number : (TableArgs.blank (wide n) 0).fieldId "block" = .ok 0 := by
    simp [TableArgs.fieldId, TableArgs.blank, wide, TableDef.fieldId?, FieldDef.plain]
  have added : Add.apply (TableArgs.blank (wide n) 0) (.struct "block" (numbers n)) =
      .ok ((TableArgs.blank (wide n) 0).set 0 (.struct (numbers n))) := by
    rw [Add.apply, TableArgs.addStruct, number]
    exact @TableArgs.setStruct_eq (.blank (wide n) 0) 0 (.plain "block" (.struct 0)) rfl rfl (doubles n) _ rfl
      (types_of_doubles n)
  rw [TableArgs.addAll, List.foldl_cons, added]
  rfl

/-- Making a table after its arguments have been set. -/
private theorem runFrom_table {b : Builder} {s : Schema} {id : Nat} {t : TableDef} {answers : List Answer}
    {entries : List Entry} {adds : List Add} (found : s.tables[id]? = some t)
    (given : entries.mapM (Entry.add? answers) = some adds) :
    runFrom b ((Call.table id entries).steps s answers) =
      runFrom b (createTable ((TableArgs.blank s id).addAll adds) >>= fun r => pure (some r.placed)) := by
  rw [Call.steps, given]
  dsimp only
  rw [TableArgs.new_eq_blank found]
  exact runFrom_bind_of_ok rfl _

def givenUp (fill : UInt8) (n : Nat) : List UInt8 :=
  List.replicate offsetSize fill ++ structBytes (doubles n) (numbers n)

section
variable (fill : UInt8) {n size : Nat}

private theorem length_givenUp : (givenUp fill (n + 1)).length = 8 * (n + 1) + offsetSize := by
  rw [givenUp, List.length_append, List.length_replicate, length_structBytes (types_of_doubles _), doubles_size,
    Nat.add_comm]

/-- Where no table has room for the struct, the first table is given up, and the place of the distance to its
vtable stays as the storage held it. -/
private theorem runFrom_wide (large : maxInline < 8 * (n + 1) + offsetSize)
    (room : 8 * (n + 1) + offsetSize ≤ size) (small : 8 * (n + 1) + offsetSize ≤ maxBufferSize) :
    runFrom (roomy fill size [] 1 []) ((Call.table 0 [.struct "block" (numbers (n + 1))]).steps (wide (n + 1)) []) =
      (.error (.tableTooLarge "Wide" (8 * (n + 1) + offsetSize)),
        roomy fill (size - 8 * (n + 1) - offsetSize) (givenUp fill (n + 1)) 8 []) := by
  have bytes : (doubles (n + 1)).size = 8 * (n + 1) := doubles_size n
  have even : offsetSize ∣ (doubles (n + 1)).size := by
    rw [bytes]
    exact Nat.dvd_trans (by decide) (Nat.dvd_mul_right 8 _)
  rw [← bytes] at large room small
  have failed := @createTable_tooLarge fill size 1 [] ⟨wide (n + 1), 0, _⟩ ⟨"Wide", _⟩ (doubles (n + 1)) _ rfl
    rfl rfl (types_of_doubles (n + 1)) even large room small
  rw [bytes, doubles_alignment] at failed
  have adds : [Entry.struct "block" (numbers (n + 1))].mapM (Entry.add? []) =
      some [.struct "block" (numbers (n + 1))] := rfl
  rw [runFrom_table rfl adds, addAll_wide, runFrom_bind, failed]
  rfl

private theorem runFrom_small {answers : List Answer} (room : 2 * offsetSize ≤ size)
    (small : 8 * (n + 1) + 3 * offsetSize ≤ maxBufferSize) :
    runFrom (roomy fill size (givenUp fill (n + 1)) 8 []) ((Call.table 1 []).steps (wide (n + 1)) answers) =
      (.ok (some ⟨8 * (n + 1) + offsetSize + offsetSize, .table⟩),
        roomy fill (size - offsetSize - offsetSize) ([4, 0, 4, 0, 4, 0, 0, 0] ++ givenUp fill (n + 1)) 8
          [⟨8 * (n + 1) + offsetSize + offsetSize, .table⟩]) := by
  have length := @length_givenUp fill n
  have even : offsetSize ∣ (givenUp fill (n + 1)).length := by
    rw [length]
    exact Nat.dvd_add (Nat.dvd_trans (by decide) (Nat.dvd_mul_right 8 _)) (Nat.dvd_refl _)
  have created := @createTable_empty fill size 8 (givenUp fill (n + 1)) [] (wide (n + 1)) 1 ⟨"Small", #[]⟩ rfl
    even room (by rw [length]; omega)
  rw [length] at created
  have adds : ([] : List Entry).mapM (Entry.add? answers) = some [] := rfl
  rw [runFrom_table rfl adds]
  exact runFrom_bind_of_ok created _

private theorem length_small :
    ([4, 0, 4, 0, 4, 0, 0, 0] ++ givenUp fill (n + 1)).length = 8 * (n + 1) + 3 * offsetSize := by
  have four : offsetSize = 4 := rfl
  rw [List.length_append, length_givenUp]
  change 8 + _ = _
  omega

private theorem play_wide (large : maxInline < 8 * (n + 1) + offsetSize)
    (room : 8 * (n + 1) + 3 * offsetSize ≤ size) (small : 8 * (n + 1) + 3 * offsetSize ≤ maxBufferSize) :
    (State.start (filled fill size)).play (wide (n + 1)) (wideCalls (n + 1)) =
      ⟨roomy fill (size - 8 * (n + 1) - offsetSize - offsetSize - offsetSize)
          ([4, 0, 4, 0, 4, 0, 0, 0] ++ givenUp fill (n + 1)) 8
          [⟨8 * (n + 1) + offsetSize + offsetSize, .table⟩],
        [⟨.error (.tableTooLarge "Wide" (8 * (n + 1) + offsetSize)), 0, 8 * (n + 1) + offsetSize⟩,
          ⟨.ok (some ⟨8 * (n + 1) + offsetSize + offsetSize, .table⟩), 8 * (n + 1) + offsetSize,
            8 * (n + 1) + 3 * offsetSize⟩]⟩ := by
  have four : offsetSize = 4 := rfl
  have length := @length_givenUp fill n
  have first := @State.call_eq (wide (n + 1)) ⟨roomy fill size [] 1 [], []⟩ _ _ _
    (runFrom_wide fill large (by omega) (by omega))
  have second (answers : List Answer) := @State.call_eq (wide (n + 1))
    ⟨roomy fill (size - 8 * (n + 1) - offsetSize) (givenUp fill (n + 1)) 8 [], answers⟩ _ _ _
    (runFrom_small fill (by omega) small)
  have total := @length_small fill n
  rw [State.start, filled, ofStorage_replicate, State.play, wideCalls, List.foldl_cons, List.foldl_cons,
    List.foldl_nil, first, second]
  simp only [roomy_size, length, total]
  rfl

/-- The byte at 12 of what is finished is one that the storage held. -/
private theorem finish_wide (large : maxInline < 8 * (n + 1) + offsetSize)
    (room : 8 * (n + 1) + 4 * offsetSize ≤ size) (small : 8 * (n + 1) + 4 * offsetSize ≤ maxBufferSize) :
    (((State.start (filled fill size)).play (wide (n + 1)) (wideCalls (n + 1))).finish
      ⟨8 * (n + 1) + offsetSize + offsetSize⟩ none).map (fun f => f.data[12]?) = .ok (some fill) := by
  have four : offsetSize = 4 := rfl
  have total := @length_small fill n
  have among : Placed.isAmong ⟨8 * (n + 1) + offsetSize + offsetSize, .table⟩
      [⟨8 * (n + 1) + offsetSize + offsetSize, .table⟩] :=
    (Placed.isAmong_iff_mem (List.pairwise_singleton _ _)).mpr List.mem_cons_self
  have pushed := @pushRoot_roomy fill (size - 8 * (n + 1) - offsetSize - offsetSize - offsetSize) 8
    ([4, 0, 4, 0, 4, 0, 0, 0] ++ givenUp fill (n + 1)) [⟨8 * (n + 1) + offsetSize + offsetSize, .table⟩]
    (8 * (n + 1) + offsetSize + offsetSize) among (Nat.dvd_refl 8) (by decide)
    (by rw [total]; omega) (by omega) (by omega) (by omega) (by omega)
  rw [play_wide fill large (by omega) (by omega), State.finish_eq, pushed]
  set reference := Bytes.encode offsetSize _ with encoded
  have four' : reference.length = 4 := by rw [encoded, Bytes.length_encode, four]
  have used : (roomy fill (size - 8 * (n + 1) - offsetSize - offsetSize - offsetSize - offsetSize)
      (reference ++ ([4, 0, 4, 0, 4, 0, 0, 0] ++ givenUp fill (n + 1))) 8
      [⟨8 * (n + 1) + offsetSize + offsetSize, .table⟩]).used.size = 4 + (8 * (n + 1) + 3 * offsetSize) := by
    rw [roomy_size, List.length_append, four', total]
  simp only [Except.map, Builder.finished, List.getElem?_toArray, List.getElem?_take, used]
  rw [if_pos (by change 12 < _ - 0; omega)]
  change Except.ok ((reference ++ ([4, 0, 4, 0, 4, 0, 0, 0] ++ givenUp fill (n + 1)))[12]?) = _
  rw [List.getElem?_append_right (by omega), four']
  rfl

end

def playedWide (fill : UInt8) : State :=
  (State.start (filled fill 131072)).play (wide 8192) (wideCalls 8192)

private theorem answers_playedWide (fill : UInt8) :
    (playedWide fill).answers = [⟨.error (.tableTooLarge "Wide" 65540), 0, 65540⟩,
      ⟨.ok (some ⟨65544, .table⟩), 65540, 65548⟩] :=
  congrArg State.answers (@play_wide fill 8191 131072 (by decide) (by decide) (by decide))

private theorem not_refused_playedWide (fill : UInt8) :
    ∀ a ∈ (playedWide fill).answers, ¬ Refused a.result := by
  rw [answers_playedWide]
  simp only [List.mem_cons, List.not_mem_nil, or_false, forall_eq_or_imp, forall_eq]
  exact ⟨id, id⟩

private theorem finish_playedWide (fill : UInt8) :
    ((playedWide fill).finish ⟨65544⟩ none).map (fun f => f.data[12]?) = .ok (some fill) :=
  @finish_wide fill 8191 131072 (by decide) (by decide) (by decide)

/-- Both storages are large enough, and yet what is finished differs where it shows what they held. -/
theorem playedWide_shows_storage :
    (playedWide 255).answers = (playedWide 0).answers ∧
      (∀ a ∈ (playedWide 0).answers, ¬ Refused a.result) ∧
        ((playedWide 0).finish ⟨65544⟩ none).map (fun f => f.data[12]?) = .ok (some 0) ∧
          ((playedWide 255).finish ⟨65544⟩ none).map (fun f => f.data[12]?) = .ok (some 255) :=
  ⟨by rw [answers_playedWide, answers_playedWide], not_refused_playedWide 0, finish_playedWide 0,
    finish_playedWide 255⟩

/-- The two runs agree about everything else. -/
theorem playedWide_agree :
    (playedWide 255).answers = (playedWide 0).answers ∧
      Alike (playedWide 0).answers ((playedWide 0).finish ⟨65544⟩ none)
        ((playedWide 255).finish ⟨65544⟩ none) := by
  have agree := play_storages (wide 8192) (wideCalls 8192) (filled 0 131072) (filled 255 131072)
    (not_refused_playedWide 0) (not_refused_playedWide 255)
  have finishes (fill : UInt8) : ¬ Refused ((playedWide fill).finish ⟨65544⟩ none) := by
    rw [← Refused.map_iff (f := fun f => f.data[12]?), finish_playedWide]
    exact id
  exact ⟨agree.1, (agree.2 ⟨65544⟩ none (finishes 0) (finishes 255)).1⟩

end Script
end FlatTable

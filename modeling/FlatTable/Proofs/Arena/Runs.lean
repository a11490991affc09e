import FlatTable.Proofs.Arena.Tables
import FlatTable.Proofs.Builder.Built
import FlatTable.Proofs.Builder.Finished

/-! Whatever is asked of a builder that checks itself, and however its storage grows, it does not fault. -/
namespace FlatTable
open Layout Build

/-! ### Arguments -/

namespace TableArgs
variable {s : Schema} {args args' : TableArgs} {add : Add}

/-- There is a place for what is added. -/
private theorem fieldId_of_apply (fits : args.Fits s) (added : add.apply args = .ok args') :
    ∃ id, args.fieldId add.name = .ok id ∧ id < args.settings.size := by
  have inside {id : Nat} {x : Setting} (sets : args.Sets id x args') : id < args.settings.size := by
    obtain ⟨t, known, size⟩ := fits.table
    obtain ⟨f, field, _⟩ := sets
    rw [fits.schema, Schema.field?, known, Option.bind_some] at field
    rw [size]
    exact (Array.getElem?_eq_some_iff.mp field).1
  cases add with
  | scalar name v =>
    obtain ⟨id, named, set⟩ := bind_eq_ok_iff.mp added
    exact ⟨id, named, inside (sets_of_setScalar set)⟩
  | struct name values =>
    obtain ⟨id, named, set⟩ := bind_eq_ok_iff.mp added
    exact ⟨id, named, inside (sets_of_setStruct set)⟩
  | reference name p =>
    obtain ⟨id, named, set⟩ := bind_eq_ok_iff.mp added
    exact ⟨id, named, inside (sets_of_setReference set)⟩

private theorem runFrom_add {a : Arena} (fits : args.Fits s) (add : Add) :
    (Arena.add args add).runFrom a = .ok (.ok ((add.apply args).toOption.getD args), a) := by
  unfold Arena.add
  cases added : add.apply args with
  | error e => cases args.fieldId add.name <;> rfl
  | ok args' =>
    obtain ⟨id, named, inside⟩ := fieldId_of_apply fits added
    rw [named]
    dsimp only
    rw [Guarded.runFrom_require_bind inside]
    rfl

theorem runFrom_addAll {a : Arena} (fits : args.Fits s) (adds : List Add) :
    (Arena.addAll args adds).runFrom a = .ok (.ok (args.addAll adds), a) := by
  induction adds generalizing args with
  | nil => rfl
  | cons add adds ih =>
    have next : ((add.apply args).toOption.getD args).Fits s := (addAll_fits fits [add]).1
    rw [Arena.addAll, List.foldlM_cons, Guarded.runFrom_bind_of_ok (runFrom_add fits add)]
    exact ih next

end TableArgs

def Arena.buffer (a : Arena) : FinishedBuffer :=
  let stop := a.bytes.length - a.trailingPad
  ⟨((a.bytes.take stop).drop a.head).toArray, a.bytes.length, a.head, stop⟩

namespace Builder
variable {b : Builder}

/-! ### Finishing -/

private theorem pushRoot_mirrors (sound : b.Sound) (behind : ∀ p ∈ b.placed, b.Behind p.rev)
    (root : Ref .table) (identifier : Option Identifier) :
    b.Mirrors (Arena.pushRoot root identifier) (pushRoot root identifier) := by
  have divides : max b.minAlign offsetSize ∣ 8 := max_dvd_eight sound.minAlign (by decide)
  unfold Arena.pushRoot pushRoot
  refine (checkPlaced_mirrors _).bind_does (checkPlaced_does _) fun _ b₁ given => ?_
  obtain ⟨rfl, placed⟩ := given
  refine Mirrors.get_bind ((align_mirrors _ _).bind_does (align_does divides) fun _ b₂ aligned => ?_)
  have behind₂ := (behind _ placed).kept aligned.1.keeps
  cases identifier with
  | none => exact pushReference_mirrors behind₂
  | some identifier =>
    refine (Mirrors.store_all identifier.length_eq).bind_does (push_does _) fun _ b₃ pushed => ?_
    exact pushReference_mirrors (behind₂.kept pushed.1.keeps)

theorem buffer_arena (inUsed : b.trailingPad ≤ b.used.size) : b.arena.buffer = b.finished := by
  have length := length_arena b
  have data : (b.arena.bytes.take (b.arena.bytes.length - b.trailingPad)).drop b.arena.head =
      b.used.bytes.take (b.used.size - b.trailingPad) := by
    have front : b.free.bytes.reverse.length = b.free.size := by
      rw [List.length_reverse, b.free.size_eq]
    have stop : b.arena.bytes.length - b.trailingPad = b.free.size + (b.used.size - b.trailingPad) := by
      omega
    change List.drop b.free.size (List.take _ (b.free.bytes.reverse ++ b.used.bytes)) = _
    rw [stop, ← front, List.take_length_add_append, List.drop_left]
  change FinishedBuffer.mk (((b.arena.bytes.take (b.arena.bytes.length - b.trailingPad)).drop
    b.arena.head).toArray) b.arena.bytes.length b.arena.head (b.arena.bytes.length - b.trailingPad) = _
  rw [data, length]
  rfl

private theorem runFrom_finished (inUsed : b.trailingPad ≤ b.used.size) :
    Arena.finished.runFrom b.arena = .ok (.ok b.finished, b.arena) := by
  have length := length_arena b
  have inside : b.arena.head ≤ b.arena.bytes.length - b.trailingPad ∧
      b.arena.bytes.length - b.trailingPad ≤ b.arena.bytes.length := by
    change b.free.size ≤ _ ∧ _
    omega
  rw [← buffer_arena inUsed]
  unfold Arena.finished
  change Guarded.runFrom b.arena (Arena.minus b.arena.bytes.length b.trailingPad >>= _) = _
  rw [Guarded.runFrom_minus_bind (by omega), Guarded.runFrom_require_bind inside]
  rfl

theorem finish_mirrors (sound : b.Sound) (behind : ∀ p ∈ b.placed, b.Behind p.rev)
    (root : Ref .table) (identifier : Option Identifier) :
    b.Mirrors (Arena.finish root identifier) (finish root identifier) := by
  refine (pushRoot_mirrors sound behind root identifier).bind_does (pushRoot_does root identifier sound)
    fun _ b₁ given => ?_
  obtain ⟨_, ⟨front, grown⟩, _⟩ := given
  have pad := (grown.sound sound).trailingPad
  rw [← b₁.used.size_eq] at pad
  exact runFrom_finished pad

/-! ### Vtables -/

/-- In front of the table at `object` from the end lies its vtable: how many bytes it has itself, how many
the table has, and for each field where it is in the table, or zero. No entry has more than 16 bits. -/
structure VtableLaid (b : Builder) (object size : Nat) (slots : List Nat) : Prop where
  held : b.Held (object + (slots.length + 2) * slotSize)
    ((((slots.length + 2) * slotSize) :: size :: slots).flatMap (Bytes.encode slotSize))
  few : (slots.length + 2) * slotSize < 2 ^ 16
  small : size < 2 ^ 16
  large : offsetSize ≤ size
  inside : ∀ d ∈ slots, d = 0 ∨ (offsetSize ≤ d ∧ d < size)

theorem TableLaid.vtableLaid {a : TableArgs} {object start : Nat} {slots : List Nat}
    (laid : b.TableLaid object a start slots) : b.VtableLaid object (object - start) slots := by
  have entries : vtableHeader + slots.length * slotSize = (slots.length + 2) * slotSize := by
    simp only [vtableHeader, slotSize]
    omega
  have room := laid.room
  have held := laid.vtable
  have few := laid.few
  have small := laid.small
  rw [entries] at held few
  simp only [maxInline] at few small
  refine ⟨held, by omega, by omega, by omega, fun d member => ?_⟩
  obtain ⟨i, slot⟩ := List.mem_iff_getElem?.mp member
  by_cases set : ∃ x, a.settings[i]? = some (some x)
  · obtain ⟨x, set⟩ := set
    rcases laid.stored i x set with ⟨rev, f, found, behind, _, _, field⟩ | ⟨zero, _⟩
    · have inside := field.inside
      have nonempty := field.nonempty
      have same : object - rev = d := Option.some.inj (found.symm.trans slot)
      right
      omega
    · rw [slot, Option.getD_some] at zero
      exact .inl zero
  · have zero := laid.missing i (not_exists.mp set)
    rw [slot, Option.getD_some] at zero
    exact .inl zero

end Builder

/-! ### Runs -/

def Step.build (s : Schema) : Step → Build Unit
  | string text => discard (Builder.createString text)
  | vector t items => discard (Builder.createVector t items)
  | strings items => discard (Builder.createStringVector items)
  | tables items => discard (Builder.createTableVector items)
  | table id adds => do
    let args ← TableArgs.new s id
    discard (Builder.createTable (args.addAll adds))
  | force on => modify fun b => { b with forceDefaults := on }

theorem Arena.ofStorage_eq (storage : Storage) : ofStorage storage = (Builder.ofStorage storage).arena := by
  simp only [ofStorage, Builder.ofStorage, Builder.arena, Block.ofList, List.reverse_reverse,
    List.length_reverse, List.append_nil]

namespace Construction
variable {s : Schema} {x : Construction}

private theorem Sound.behind (sound : x.Sound s) : ∀ p ∈ x.builder.placed, x.builder.Behind p.rev := by
  intro p member
  rw [sound.placed] at member
  obtain ⟨c, known, rfl⟩ := List.mem_map.mp member
  obtain ⟨before, inFront⟩ := (sound.laid c known).trailingPad_lt
  exact ⟨Nat.lt_of_le_of_lt (Nat.zero_le _) before, inFront⟩

private theorem step_builder (x : Construction) (step : Step) :
    (x.step s step).builder = (runFrom x.builder (step.build s)).2 := by
  have created {kind : ObjectKind} (steps : Build (Ref kind)) (content : Content) :
      (x.create steps content).builder = (runFrom x.builder (discard steps)).2 := by
    change _ = (runFrom x.builder (steps >>= fun _ => pure ())).2
    rw [runFrom_bind, create]
    rcases runFrom x.builder steps with ⟨_ | _, _⟩ <;> rfl
  cases step with
  | string text | vector t items | strings items | tables items => exact created _ _
  | table id adds =>
    unfold Construction.step Step.build
    dsimp only
    cases TableArgs.new s id with
    | error e => rfl
    | ok args => exact created _ _
  | force on => rfl

/-- One step of a run does not fault. -/
theorem perform_mirrors (valid : s.Valid) (sound : x.Sound s) (step : Step) :
    x.builder.Mirrors (Arena.perform s step) (step.build s) := by
  cases step with
  | string text => exact (Builder.createString_mirrors text).discard
  | vector t items => exact (Builder.createVector_mirrors t items).discard
  | strings items | tables items =>
    exact (Builder.createReferenceVector_mirrors sound.behind _ _ _).discard
  | table id adds =>
    unfold Arena.perform Step.build
    dsimp only
    cases made : TableArgs.new s id with
    | error e =>
      obtain rfl : e = .unknownTable id := by
        unfold TableArgs.new at made
        split at made <;> cases made
        rfl
      exact .of_throw _
    | ok args =>
      have fits := (TableArgs.new_fits made).1
      refine Builder.Mirrors.eval_bind (TableArgs.runFrom_addAll fits adds) ?_
      exact (Builder.createTable_mirrors valid.filled (TableArgs.addAll_fits fits adds).1 sound.builder
        sound.behind).discard
  | force on => exact .of_modify rfl

theorem run_arena (valid : s.Valid) (sound : x.Sound s) (steps : List Step) :
    x.builder.arena.run s steps = .ok (x.run s steps).builder.arena := by
  induction steps generalizing x with
  | nil => rfl
  | cons step steps ih =>
    have first : Arena.step s x.builder.arena step = .ok (x.step s step).builder.arena := by
      rw [Arena.step, perform_mirrors valid sound step, step_builder]
      rfl
    rw [Arena.run, List.foldlM_cons, first]
    exact ih (step_sound valid sound step)

/-- Where every contract is checked and so is the range of every write, a run over a schema that was validated
comes to its end, whatever offsets the steps are given, whichever of them fail and however the storage grows.
So does whatever is done next, a further step or finishing, and no contract is found broken. The vtable of each
table is consistent. -/
theorem run_unfaulted (validated : s.validate = .ok ()) (storage : Storage) (steps : List Step) :
    let x := (start storage).run s steps
    (Arena.ofStorage storage).run s steps = .ok x.builder.arena ∧
      (∀ step, x.builder.Mirrors (Arena.perform s step) (step.build s) ∧
        ∀ v, (runFrom x.builder (step.build s)).1 ≠ .error (.contract v)) ∧
        (∀ root identifier, x.builder.Mirrors (Arena.finish root identifier) (Builder.finish root identifier) ∧
          ∀ v, (runFrom x.builder (Builder.finish root identifier)).1 ≠ .error (.contract v)) ∧
          ∀ rev args, ⟨rev, .table args⟩ ∈ x.history → ∃ size slots, x.builder.VtableLaid rev size slots := by
  have valid := Schema.valid_of_validate validated
  have sound := run_sound valid (start_sound s storage) steps
  refine ⟨?_, fun step => ?_, fun root identifier => ?_, fun rev args known => ?_⟩
  · rw [Arena.ofStorage_eq]
    exact run_arena valid (start_sound s storage) steps
  · have mirrors := perform_mirrors valid sound step
    exact ⟨mirrors, mirrors.ne_contract⟩
  · have mirrors := Builder.finish_mirrors sound.builder sound.behind root identifier
    exact ⟨mirrors, mirrors.ne_contract⟩
  · obtain ⟨start, slots, laid⟩ := sound.laid _ known
    exact ⟨_, slots, laid.vtableLaid⟩

def letters : Schema where
  nameSpace := ""
  attributes := []
  enums := #[]
  structs := #[⟨"Place", [⟨"row", .short⟩, ⟨"height", .double⟩]⟩]
  tables := #[⟨"Letter", #[
    .plain "weight" (.scalar .int), .plain "place" (.struct 0), .plain "text" .string,
    .plain "lines" (.vector .string), .plain "answer" (.table 0)]⟩]
  root := some 0

/-- The third step is given an offset at which there is nothing, and the fifth the offset of a vector for that
of a table. -/
def letterSteps : List Step := [
  .string "ab",
  .strings [⟨8⟩, ⟨8⟩],
  .strings [⟨8⟩, ⟨9⟩],
  .table 0 [.struct "place" [ScalarType.short.value 3, ScalarType.double.value 0],
    .reference "text" ⟨8, .string⟩, .reference "lines" ⟨20, .vector .string⟩],
  .table 0 [.scalar "weight" (ScalarType.int.value 5), .reference "answer" ⟨20, .table⟩],
  .force true,
  .table 0 [.scalar "weight" (ScalarType.int.value 0), .reference "answer" ⟨52, .table⟩]]

def correspondence : Construction := (start (.zeros 0 .standard)).run letters letterSteps

theorem letters_unfaulted :
    letters.validate = .ok () ∧ (Arena.ofStorage (.zeros 0 .standard)).run letters letterSteps =
      .ok correspondence.builder.arena ∧ correspondence.builder.placed.map Placed.rev = [76, 52, 20, 8] ∧
        ∃ size slots, correspondence.builder.VtableLaid 76 size slots := by
  have validated : letters.validate = .ok () := rfl
  obtain ⟨runs, _, _, vtables⟩ := run_unfaulted validated (.zeros 0 .standard) letterSteps
  have grounded : correspondence.history.Grounded :=
    (run_sound (Schema.valid_of_validate validated) (start_sound letters _) letterSteps).grounded
  have last : correspondence.history.tableAt? 76 = some 0 := by decide +kernel
  obtain ⟨args, known, _⟩ := grounded.tableAt?_eq_some_iff.mp last
  exact ⟨validated, runs, by decide +kernel, vtables 76 args known⟩

end Construction
end FlatTable

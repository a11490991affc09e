import FlatTable.Proofs.Arena.Runs
import FlatTable.Proofs.Builder.Padded
import FlatTable.Proofs.Builder.Parts

/-! Storage is only added to at its front. Whatever is asked of a builder, whether it succeeds or fails and
however often the storage grows meanwhile, the bytes that were used before are the last that are used then. -/
namespace FlatTable
open Layout Build

/-! ### Growth -/

namespace Growth

/-- Doubling in place: zeros are put behind the bytes, which are then copied to the upper half, and the lower
half is cleared. -/
def doubleInPlace (bytes : List UInt8) : List UInt8 :=
  let size := bytes.length
  let middle := doubled size / 2
  let larger := bytes ++ List.replicate (doubled size - size) 0
  let copied := larger.take middle ++ larger.take size ++ larger.drop (middle + size)
  List.replicate middle 0 ++ copied.drop middle

/-- What was stored is at the end of the doubled storage. -/
theorem doubleInPlace_eq {limit n : Nat} {bytes : List UInt8} {front : Front}
    (answer : (doubling limit).answer n bytes.length = .ok front) :
    doubleInPlace bytes = front.bytes ++ bytes := by
  have zeros : front.bytes = 0 :: List.replicate (doubled bytes.length - bytes.length - 1) 0 := by
    dsimp only [doubling] at answer
    split at answer <;> cases answer
    rfl
  rw [zeros]
  cases bytes with
  | nil => rfl
  | cons first bytes =>
    -- Of a storage that is not empty the upper half is as long as what was stored.
    generalize stored : first :: bytes = all
    have positive : 0 < all.length := by rw [← stored]; exact Nat.succ_pos _
    have twice : doubled all.length = all.length + all.length := by
      rw [doubled]
      omega
    have half : (all.length + all.length) / 2 = all.length := by omega
    have cleared : List.replicate all.length (0 : UInt8) = 0 :: List.replicate (all.length - 1) 0 := by
      rw [← List.replicate_succ, Nat.sub_add_cancel positive]
    simp only [doubleInPlace, twice, half, Nat.add_sub_cancel]
    rw [List.take_left, List.append_assoc, List.drop_left, List.drop_eq_nil_of_le (by simp), List.append_nil,
      cleared]

end Growth

/-! ### Storage -/

namespace Arena

def used (a : Arena) : List UInt8 := a.bytes.drop a.head

/-- `a'` is `a` after something may have been put in front of the used bytes. -/
structure Appends (a a' : Arena) : Prop where
  usedSpace : a.bytes.length - a.head ≤ a'.bytes.length - a'.head
  used : a.used <:+ a'.used

/-- The used bytes end with zeros, the padding, which are part of no object. Each object that was placed lies in
front of the earlier ones, at a multiple of four from the end. -/
structure InOrder (a : Arena) (objects : History) : Prop where
  head : a.head ≤ a.bytes.length
  padded : List.replicate a.trailingPad 0 <:+ a.used
  known : a.placed.map Placed.rev = objects.map Creation.rev
  placed : ∀ p ∈ a.placed, 0 < p.rev ∧ offsetSize ∣ p.rev ∧ p.rev ≤ a.bytes.length - a.head
  rising : a.placed.Pairwise fun later p => p.rev < later.rev
  apart : ∀ c ∈ objects, ∀ part ∈ c.parts, ∃ start stop, a.buffer.range? part = some (start, stop) ∧
    start < stop ∧ a.head + stop + a.trailingPad ≤ a.bytes.length

/-! ### Operations -/

def request : Builder.Request → Guarded Placed
  | .string text => do return (← createString text).placed
  | .vector t items => do return (← createVector t items).placed
  | .references element target items => do return (← createReferenceVector element target items).placed
  | .table args => do return (← createTable args).placed

def operate (a : Arena) : Operation → Except Fault Arena
  | .request r => ((request r).runFrom a).map Prod.snd
  | .force on => .ok { a with forceDefaults := on }

def operateAll (a : Arena) (operations : List Operation) : Except Fault Arena := operations.foldlM operate a

end Arena

namespace Builder
variable {b b' : Builder}

theorem used_arena (b : Builder) : b.arena.used = b.used.bytes := by
  have front : b.free.bytes.reverse.length = b.free.size := by rw [List.length_reverse, b.free.size_eq]
  exact List.drop_left' front

theorem usedSpace_arena (b : Builder) : b.arena.bytes.length - b.arena.head = b.used.bytes.length := by
  rw [length_arena, b.used.size_eq]
  exact Nat.add_sub_cancel_left _ _

theorem Keeps.appends (keeps : b.Keeps b') : b.arena.Appends b'.arena := by
  obtain ⟨front, used⟩ := keeps.used
  refine ⟨?_, ?_⟩
  · rw [usedSpace_arena, usedSpace_arena, used, List.length_append]
    exact Nat.le_add_left _ _
  · rw [used_arena, used_arena, used]
    exact List.suffix_append _ _

theorem Request.steps_pads (request : Request) (padded : b.Padded) : request.steps.Leaves b Padded := by
  cases request with
  | string text => exact (createString_pads text padded).bind fun _ _ _ => .of_pure
  | vector t items => exact (createVector_pads t items padded).bind fun _ _ _ => .of_pure
  | references element target items =>
    exact (createReferenceVector_pads element target items padded).bind fun _ _ _ => .of_pure
  | table a => exact (createTable_pads a padded).bind fun _ _ _ => .of_pure

end Builder

namespace Construction
variable {x : Construction}

theorem operate_pads (padded : x.builder.Padded) (o : Operation) : (x.operate o).builder.Padded := by
  cases o with
  | request r => exact (ask_builder x r).symm ▸ r.steps_pads padded
  | force on => exact padded

theorem Framed.operate_keeps (framed : x.Framed) (o : Operation) : x.builder.Keeps (x.operate o).builder := by
  cases o with
  | request r =>
    refine ask_of_does (P := fun y => x.builder.Keeps y.builder) (r.steps_frames framed.builder)
      (fun b' grows => ?_) fun p b' given => given.1.keeps
    obtain ⟨_, grown⟩ := grows
    exact grown.keeps
  | force on => exact x.builder.keeps_force on

theorem Framed.operateAll_keeps (framed : x.Framed) (operations : List Operation) :
    x.builder.Keeps (x.operateAll operations).builder := by
  have both : (x.operateAll operations).Framed ∧ x.builder.Keeps (x.operateAll operations).builder :=
    operateAll_of_operate (P := fun y => y.Framed ∧ x.builder.Keeps y.builder)
      ⟨framed, (Builder.Grown.refl x.builder).keeps⟩
      fun y h o _ => ⟨h.1.operate o, h.2.trans (h.1.operate_keeps o)⟩
  exact both.2

/-- Whatever run has led to it, the storage is in order. -/
theorem Framed.inOrder (framed : x.Framed) (padded : x.builder.Padded) :
    x.builder.arena.InOrder x.history := by
  have length := x.builder.length_arena
  have pad := framed.builder.trailingPad
  rw [← x.builder.used.size_eq] at pad
  refine ⟨?_, ?_, framed.placed, fun p placed => ?_, framed.builder.listed.ordered,
    fun c known part member => ?_⟩
  · rw [length]
    exact Nat.le_add_right _ _
  · rw [Builder.used_arena]
    exact padded
  · obtain ⟨c, known, rev⟩ := framed.exists_creation placed
    obtain ⟨positive, inFront⟩ := framed.inFront known
    rw [Builder.usedSpace_arena, ← rev]
    exact ⟨positive, (framed.framed c known).aligned, inFront⟩
  · obtain ⟨start, stop, range, nonempty, inside⟩ := (framed.framed c known).inside framed.builder member
    rw [Builder.size_data, ← x.builder.used.size_eq] at inside
    rw [Builder.buffer_arena pad, length]
    refine ⟨start, stop, range, nonempty, ?_⟩
    change x.builder.free.size + stop + x.builder.trailingPad ≤ _
    omega

theorem Framed.behind (framed : x.Framed) : ∀ p ∈ x.builder.placed, x.builder.Behind p.rev := by
  intro p placed
  obtain ⟨c, known, rev⟩ := framed.exists_creation placed
  exact rev ▸ framed.inFront known

/-- In storage that lies in one piece the same is written. -/
theorem Framed.request_mirrors (framed : x.Framed) {r : Builder.Request}
    (fits : ∀ a, r = .table a → ∃ s : Schema, s.Filled ∧ a.Fits s) :
    x.builder.Mirrors (Arena.request r) r.steps := by
  have placed {kind : ObjectKind} {guarded : Guarded (Ref kind)} {steps : Build (Ref kind)}
      (mirrors : x.builder.Mirrors guarded steps) : x.builder.Mirrors
        (do return (← guarded).placed : Guarded Placed) (do return (← steps).placed : Build Placed) :=
    mirrors.bind fun _ _ _ => .of_pure _
  cases r with
  | string text => exact placed (Builder.createString_mirrors text)
  | vector t items => exact placed (Builder.createVector_mirrors t items)
  | references element target items =>
    exact placed (Builder.createReferenceVector_mirrors framed.behind element target items)
  | table a =>
    obtain ⟨s, filled, fits⟩ := fits a rfl
    exact placed (Builder.createTable_mirrors filled fits framed.builder framed.behind)

theorem Framed.operate_arena (framed : x.Framed) {o : Operation}
    (fits : ∀ a, o = .request (.table a) → ∃ s : Schema, s.Filled ∧ a.Fits s) :
    x.builder.arena.operate o = .ok (x.operate o).builder.arena := by
  cases o with
  | request r =>
    have mirrors := framed.request_mirrors (r := r) fun a same => fits a (same ▸ rfl)
    change Except.map Prod.snd _ = Except.ok (x.ask r).builder.arena
    rw [mirrors, ask_builder]
    rfl
  | force on => rfl

theorem Framed.operateAll_arena (framed : x.Framed) {operations : List Operation}
    (fits : ∀ a, .request (.table a) ∈ operations → ∃ s : Schema, s.Filled ∧ a.Fits s) :
    x.builder.arena.operateAll operations = .ok (x.operateAll operations).builder.arena := by
  induction operations generalizing x with
  | nil => rfl
  | cons o operations ih =>
    have first := framed.operate_arena (o := o) fun a same => fits a (same ▸ List.mem_cons_self)
    rw [Arena.operateAll, List.foldlM_cons, first]
    exact ih (framed.operate o) fun a member => fits a (List.mem_cons_of_mem o member)

/-- Finishing, too, only adds to what is used. -/
theorem Framed.finish_appends (framed : x.Framed) (padded : x.builder.Padded) (root : Ref .table)
    (identifier : Option Identifier) {b' : Builder}
    (after : (runFrom x.builder (Builder.finish root identifier)).2 = b') :
    x.builder.arena.Appends b'.arena ∧ b'.arena.InOrder x.history := by
  have grows : x.builder.Extends b' := after ▸
    (Builder.finish_does root identifier framed.builder).leaves (fun _ h => h) fun _ _ given => given.2.2.1
  have framed' := framed.extends grows
  obtain ⟨_, grown⟩ := grows
  exact ⟨grown.keeps.appends, framed'.inOrder (after ▸ Builder.finish_pads root identifier padded)⟩

/-- Whatever is asked of a builder and however its storage grows, its storage is in order, and each operation,
building from JSON and finishing included, only puts bytes in front of those that are used, whether it succeeds
or fails. So it is in storage that lies in one piece, for arguments that fit, and in storage that is doubled in
place. -/
theorem storage_appended (storage : Storage) (operations : List Operation) :
    let x := (start storage).operateAll operations
    x.builder.arena.InOrder x.history ∧
      (∀ o, x.builder.arena.Appends (x.operate o).builder.arena) ∧
      (∀ s id json, ∃ requests : List Builder.Request, (∀ a, .table a ∈ requests → a.Fits s) ∧
        (x.operateAll (requests.map .request)).builder =
          (runFrom x.builder (Builder.buildTable s id json)).2 ∧
            x.builder.arena.Appends (x.operateAll (requests.map .request)).builder.arena) ∧
      (∀ root identifier b', (runFrom x.builder (Builder.finish root identifier)).2 = b' →
        x.builder.arena.Appends b'.arena ∧ b'.arena.InOrder x.history) ∧
      ((∀ a, .request (.table a) ∈ operations → ∃ s : Schema, s.Filled ∧ a.Fits s) →
        (Arena.ofStorage storage).operateAll operations = .ok x.builder.arena ∧
          ∀ root identifier,
            x.builder.Mirrors (Arena.finish root identifier) (Builder.finish root identifier)) ∧
      ∀ (bytes : List UInt8) n front, Growth.standard.answer n bytes.length = .ok front →
        Growth.doubleInPlace bytes = front.bytes ++ bytes := by
  have framed := (start_framed storage).operateAll operations
  have padded : ((start storage).operateAll operations).builder.Padded :=
    operateAll_of_operate (P := fun y => y.builder.Padded) List.nil_suffix fun _ h o _ => operate_pads h o
  refine ⟨framed.inOrder padded, fun o => (framed.operate_keeps o).appends, fun s id json => ?_,
    fun root identifier b' => framed.finish_appends padded root identifier, fun fits => ⟨?_, ?_⟩,
    fun _ _ _ => Growth.doubleInPlace_eq⟩
  · obtain ⟨requests, fits, built⟩ := buildTable_operates s id json ((start storage).operateAll operations)
    exact ⟨requests, fits, built, (framed.operateAll_keeps _).appends⟩
  · rw [Arena.ofStorage_eq]
    exact (start_framed storage).operateAll_arena fits
  · exact Builder.finish_mirrors framed.builder framed.behind

def stale : Storage := ⟨[9, 9, 9], .standard, 0⟩

/-- The storage is doubled five times, and one of the operations fails. -/
theorem plotting_appended :
    (∀ a, .request (.table a) ∈ plotting → ∃ s : Schema, s.Filled ∧ a.Fits s) ∧
      ∃ x, x = (start stale).operateAll plotting ∧
        (Arena.ofStorage stale).operateAll plotting = .ok x.builder.arena ∧
        (x.builder.arena.bytes.length, x.builder.arena.head, x.builder.arena.trailingPad) = (96, 26, 1) ∧
        x.builder.arena.InOrder x.history ∧
        (runFrom x.builder (Builder.Request.string "c").steps).1.toOption.isSome ∧
        x.builder.arena.Appends (x.operate (.request (.string "c"))).builder.arena ∧
        Growth.standard.answer 0 3 = .ok ⟨[0, 0, 0], by decide⟩ ∧
        Growth.doubleInPlace [9, 9, 9] = [0, 0, 0, 9, 9, 9] := by
  have filled : plots.Filled := (Schema.valid_of_validate (s := plots) rfl).filled
  have fits (a : TableArgs) (asked : .request (.table a) ∈ plotting) : ∃ s : Schema, s.Filled ∧ a.Fits s :=
    ⟨plots, filled, plotting_fits a asked⟩
  obtain ⟨inOrder, appends, _, _, machine, growth⟩ := storage_appended stale plotting
  have answer : Growth.standard.answer 0 3 = .ok ⟨[0, 0, 0], by decide⟩ := rfl
  exact ⟨fits, _, rfl, (machine fits).1, by decide +kernel, inOrder, by decide +kernel, appends _, answer,
    growth [9, 9, 9] 0 _ answer⟩

end Construction
end FlatTable

import FlatTable.Proofs.Arena.Machine
import FlatTable.Proofs.Builder.Limits

/-! A builder that checks itself does what a builder does, and does not fault: the small steps. -/
namespace FlatTable
open Layout Build

namespace Guarded
variable {α β : Type} {a : Arena}

theorem runFrom_bind (x : Guarded α) (f : α → Guarded β) :
    runFrom a (x >>= f) =
      match runFrom a x with
      | .ok (.ok r, a') => runFrom a' (f r)
      | .ok (.error e, a') => .ok (.error e, a')
      | .error fault => .error fault := by
  rw [runFrom, runFrom, ExceptT.run_bind, StateT.run_bind]
  rcases (ExceptT.run x).run a with _ | ⟨_ | _, _⟩ <;> rfl

/-- A broken contract is never an answer. -/
theorem isAnswer_of_runFrom {x : Guarded α} {e : BuildError} {a' : Arena}
    (ran : runFrom a x = .ok (.error e, a')) : e.IsAnswer := by
  unfold runFrom at ran
  cases guarded : (ExceptT.run x).run a with
  | error fault =>
    rw [guarded] at ran
    cases ran
  | ok given =>
    obtain ⟨answer | r, a''⟩ := given <;> rw [guarded] at ran <;> cases ran
    exact answer.property

theorem runFrom_bind_of_ok {x : Guarded α} {r : α} {a' : Arena} (ran : runFrom a x = .ok (.ok r, a'))
    (f : α → Guarded β) : runFrom a (x >>= f) = runFrom a' (f r) := by
  rw [runFrom_bind, ran]

theorem runFrom_get_bind (f : Arena → Guarded β) : runFrom a (get >>= f) = runFrom a (f a) := rfl

theorem runFrom_require_bind {p : Prop} [Decidable p] (holds : p) (fault : Fault) (f : Unit → Guarded β) :
    runFrom a (Arena.require p fault >>= f) = runFrom a (f ()) := by
  rw [Arena.require, if_pos holds]
  rfl

theorem runFrom_minus_bind {n m : Nat} (le : m ≤ n) (f : Nat → Guarded β) :
    runFrom a (Arena.minus n m >>= f) = runFrom a (f (n - m)) := by
  rw [Arena.minus, bind_assoc, runFrom_require_bind le, pure_bind]

end Guarded

namespace Builder
open Guarded
variable {α β : Type} {b : Builder}

def arena (b : Builder) : Arena where
  bytes := b.free.bytes.reverse ++ b.used.bytes
  head := b.free.size
  growth := b.growth
  requests := b.requests
  minAlign := b.minAlign
  forceDefaults := b.forceDefaults
  trailingPad := b.trailingPad
  placed := b.placed

theorem length_arena (b : Builder) : b.arena.bytes.length = b.free.size + b.used.size := by
  rw [arena, List.length_append, List.length_reverse, b.free.size_eq, b.used.size_eq]

theorem runFrom_usedSpace_bind (f : Nat → Guarded β) :
    Guarded.runFrom b.arena (Arena.usedSpace >>= f) = Guarded.runFrom b.arena (f b.used.size) := by
  have used : b.arena.bytes.length - b.arena.head = b.used.size := by
    rw [length_arena, arena, Nat.add_sub_cancel_left]
  rw [← used, ← runFrom_minus_bind (by rw [length_arena]; exact Nat.le_add_right _ _)]
  rfl

/-- The guarded steps come to the same answer and leave the same builder. -/
def Mirrors (b : Builder) (guarded : Guarded α) (steps : Build α) : Prop :=
  guarded.runFrom b.arena = .ok ((runFrom b steps).1, (runFrom b steps).2.arena)

namespace Mirrors
variable {guarded : Guarded α} {steps : Build α} {f : α → Guarded β} {f' : α → Build β}

/-- What a guarded step mirrors breaks no contract. -/
theorem ne_contract (mirrors : b.Mirrors guarded steps) (v : Contract.Violation) :
    (Build.runFrom b steps).1 ≠ .error (.contract v) := by
  intro broken
  rw [Mirrors, broken] at mirrors
  exact Guarded.isAnswer_of_runFrom mirrors

theorem of_pure (a : α) : b.Mirrors (pure a) (pure a) := rfl

theorem of_throw (e : {e : BuildError // e.IsAnswer}) :
    b.Mirrors (throw e : Guarded α) (throw e.val) := rfl

theorem bind (first : b.Mirrors guarded steps)
    (next : ∀ a b', runFrom b steps = (.ok a, b') → b'.Mirrors (f a) (f' a)) :
    b.Mirrors (guarded >>= f) (steps >>= f') := by
  unfold Mirrors at *
  rw [Guarded.runFrom_bind, first, Build.runFrom_bind]
  cases ran : Build.runFrom b steps with
  | mk result b' =>
    cases result with
    | error e => rfl
    | ok a => exact next a b' ran

theorem discard (mirrors : b.Mirrors guarded steps) : b.Mirrors (discard guarded) (discard steps) :=
  mirrors.bind fun _ _ _ => of_pure ()

/-- The next step starts where what was done before holds. -/
theorem bind_does {done : α → Builder → Prop} (first : b.Mirrors guarded steps)
    (does : steps.Does b done) (next : ∀ a b', done a b' → b'.Mirrors (f a) (f' a)) :
    b.Mirrors (guarded >>= f) (steps >>= f') :=
  first.bind fun a b' ran => next a b' (does.of_ok ran)

/-- The guarded steps may have another form of the answer. -/
theorem map_bind_does {γ : Type} {h : α → γ} {guarded : Guarded γ} {f : γ → Guarded β}
    {done : α → Builder → Prop} (first : b.Mirrors guarded (h <$> steps)) (does : steps.Does b done)
    (next : ∀ a b', done a b' → b'.Mirrors (f (h a)) (f' a)) :
    b.Mirrors (guarded >>= f) (steps >>= f') := by
  unfold Mirrors at *
  rw [map_eq_pure_bind, Build.runFrom_bind] at first
  rw [Guarded.runFrom_bind, first, Build.runFrom_bind]
  cases ran : Build.runFrom b steps with
  | mk result b' =>
    cases result with
    | error e => rfl
    | ok a => exact next a b' (does.of_ok ran)

theorem throw_bind (e : {e : BuildError // e.IsAnswer}) :
    b.Mirrors ((throw e : Guarded α) >>= f) ((throw e.val : Build α) >>= f') := rfl

theorem get_bind {f : Arena → Guarded β} {f' : Builder → Build β} (next : b.Mirrors (f b.arena) (f' b)) :
    b.Mirrors (get >>= f) (get >>= f') := next

theorem of_get {f' : Builder → Build α} (next : b.Mirrors guarded (f' b)) :
    b.Mirrors guarded (get >>= f') := next

theorem minus_bind {n m : Nat} {f : Nat → Guarded β} {steps : Build β} (le : m ≤ n)
    (next : b.Mirrors (f (n - m)) steps) : b.Mirrors (Arena.minus n m >>= f) steps := by
  rw [Mirrors, runFrom_minus_bind le]
  exact next

/-- A computation that leaves the storage alone. -/
theorem eval_bind {x : Guarded α} {r : α} {steps : Build β} (ran : x.runFrom b.arena = .ok (.ok r, b.arena))
    (next : b.Mirrors (f r) steps) : b.Mirrors (x >>= f) steps := by
  rw [Mirrors, runFrom_bind_of_ok ran]
  exact next

theorem of_modify {change : Arena → Arena} {change' : Builder → Builder}
    (same : change b.arena = (change' b).arena) :
    b.Mirrors (modify change : Guarded PUnit) (modify change') := by
  exact congrArg (fun a => Except.ok (Except.ok PUnit.unit, a)) same

theorem usedSpace_bind {f : Nat → Guarded β} {f' : Builder → Build β}
    (next : b.Mirrors (f b.used.size) (f' b)) : b.Mirrors (Arena.usedSpace >>= f) (get >>= f') := by
  rw [Mirrors, runFrom_usedSpace_bind]
  exact next

end Mirrors

/-! ### Making space -/

theorem makeRoom_arena (want : Nat) (b : Builder) :
    Arena.makeRoom want b.arena = ((makeRoom want b).1, (makeRoom want b).2.arena) := by
  fun_induction makeRoom want b with
  | case1 b small size answer =>
    have answer' : b.arena.growth.answer b.arena.requests b.arena.bytes.length = .error size := by
      rw [length_arena]
      exact answer
    rw [Arena.makeRoom, dif_pos (show b.arena.head < want from small), answer']
    rfl
  | case2 b small front answer ih =>
    have answer' : b.arena.growth.answer b.arena.requests b.arena.bytes.length = .ok front := by
      rw [length_arena]
      exact answer
    rw [Arena.makeRoom, dif_pos (show b.arena.head < want from small), answer']
    simp only [List.unattach_reverse, List.unattach_attach] at ih ⊢
    rw [← ih]
    congr 1
    simp only [arena, Block.append, List.reverse_append, List.reverse_reverse, List.append_assoc,
      List.length_append, Nat.add_sub_cancel, List.length_reverse]
  | case3 b large =>
    rw [Arena.makeRoom, dif_neg (show ¬ b.arena.head < want from large)]

theorem runFrom_growFor (want : Nat) (b : Builder) : (Arena.growFor want).runFrom b.arena =
    .ok ((makeRoom want b).1.mapError .allocationFailed, (makeRoom want b).2.arena) := by
  unfold Arena.growFor
  rw [Guarded.runFrom_get_bind, makeRoom_arena]
  rcases makeRoom want b with ⟨_ | _, b'⟩ <;> rfl

theorem runFrom_claim_of_large {want : Nat} (large : maxBufferSize < b.used.size + want) :
    runFrom b (claim want) = (.error (.bufferTooLarge (b.used.size + want)), b) := by
  change runFrom b (if maxBufferSize < b.used.size + want then _ else _) = _
  rw [if_pos large]
  rfl

theorem runFrom_claim_of_error {want size : Nat} {b' : Builder}
    (small : ¬ maxBufferSize < b.used.size + want) (made : makeRoom want b = (.error size, b')) :
    runFrom b (claim want) = (.error (.allocationFailed size), b') := by
  change runFrom b (if maxBufferSize < b.used.size + want then _ else _) = _
  rw [if_neg small, made]
  rfl

theorem runFrom_claim_of_ok {want : Nat} {u : Unit} {b' : Builder}
    (small : ¬ maxBufferSize < b.used.size + want) (made : makeRoom want b = (.ok u, b')) :
    runFrom b (claim want) =
      (.ok (b'.free.bytes.take want).reverse, { b' with free := b'.free.drop want }) := by
  change runFrom b (if maxBufferSize < b.used.size + want then _ else _) = _
  rw [if_neg small, made]
  rfl

def opened (b : Builder) (area : List UInt8) : Builder := { b with used := b.used.push area }

theorem arena_opened_claimed (want : Nat) (b : Builder) :
    (opened { b with free := b.free.drop want } (b.free.bytes.take want).reverse).arena =
      { b.arena with head := b.free.size - want } := by
  have bytes : (b.free.bytes.drop want).reverse ++ ((b.free.bytes.take want).reverse ++ b.used.bytes) =
      b.free.bytes.reverse ++ b.used.bytes := by
    rw [← List.append_assoc, ← List.reverse_append, List.take_append_drop]
  simp only [arena, opened, Block.drop, Block.push, bytes]

/-- Space is made by claiming bytes, which are used from then on as they are. -/
theorem runFrom_makeSpace (want : Nat) (b : Builder) :
    (Arena.makeSpace want).runFrom b.arena =
      match runFrom b (claim want) with
      | (.ok old, b') => .ok (.ok b'.free.size, (b'.opened old).arena)
      | (.error e, b') => .ok (.error e, b'.arena) := by
  have room := @le_of_makeRoom want b ()
  obtain ⟨free, requests, same⟩ := makeRoom_snd want b
  unfold Arena.makeSpace
  rw [runFrom_usedSpace_bind]
  dsimp only
  -- The space is refused, or the storage does not grow, or the bytes are taken.
  by_cases large : maxBufferSize < b.used.size + want
  · rw [if_pos large, runFrom_claim_of_large large]
    rfl
  rw [if_neg large]
  change Guarded.runFrom b.arena (Arena.growFor want >>= _) = _
  rw [Guarded.runFrom_bind, runFrom_growFor]
  cases made : makeRoom want b with
  | mk result b₁ =>
    rw [made] at room same
    obtain rfl : b₁ = { b with free, requests } := same
    cases result with
    | error size =>
      rw [runFrom_claim_of_error large made]
      rfl
    | ok _ =>
      have enough := room rfl
      rw [runFrom_claim_of_ok large made]
      dsimp only [Except.mapError]
      rw [runFrom_usedSpace_bind, Guarded.runFrom_require_bind rfl]
      change Guarded.runFrom (arena { b with free, requests }) (Arena.minus free.size want >>= _) = _
      rw [Guarded.runFrom_minus_bind enough]
      exact congrArg (fun a => Except.ok (Except.ok (free.size - want), a))
        (arena_opened_claimed want { b with free, requests }).symm

/-- Writing changes the range and nothing else. -/
theorem runFrom_write {a : Arena} {before old after bytes : List UInt8} {start stop : Nat}
    (split : a.bytes = before ++ (old ++ after)) (starts : before.length = start)
    (stops : start + bytes.length = stop) (same : bytes.length = old.length) :
    (Arena.write start stop bytes).runFrom a =
      .ok (.ok (), { a with bytes := before ++ (bytes ++ after) }) := by
  have length : a.bytes.length = before.length + (old.length + after.length) := by
    rw [split, List.length_append, List.length_append]
  have inside : start ≤ stop ∧ stop ≤ a.bytes.length := by omega
  have front : a.bytes.take start = before := by rw [split, List.take_left' starts]
  have back : a.bytes.drop stop = after := by
    rw [split, ← List.append_assoc, List.drop_left' (by rw [List.length_append]; omega)]
  change Guarded.runFrom a (Arena.require _ _ >>= fun _ => Arena.require _ _ >>= _) = _
  rw [Guarded.runFrom_require_bind inside, Guarded.runFrom_require_bind (by omega), front, back,
    List.append_assoc]
  rfl

/-- The steps write what is in front, and do nothing else. -/
def Fills (b : Builder) (area area' : List UInt8) (steps : Guarded Unit) : Prop :=
  steps.runFrom (b.opened area).arena = .ok (.ok (), (b.opened area').arena)

namespace Fills
variable {area area' area'' : List UInt8} {steps steps' : Guarded Unit}

theorem of_pure (b : Builder) (area : List UInt8) : b.Fills area area (pure ()) := rfl

theorem bind (first : b.Fills area area' steps) (next : b.Fills area' area'' steps') :
    b.Fills area area'' (steps >>= fun _ => steps') :=
  (Guarded.runFrom_bind_of_ok first _).trans next

/-- Writing one part of what is in front. -/
theorem write {front old back bytes : List UInt8} {start stop : Nat}
    (starts : b.free.size + front.length = start) (stops : start + bytes.length = stop)
    (same : bytes.length = old.length) :
    b.Fills (front ++ (old ++ back)) (front ++ (bytes ++ back)) (Arena.write start stop bytes) := by
  have split (part : List UInt8) : (b.opened (front ++ (part ++ back))).arena.bytes =
      b.free.bytes.reverse ++ front ++ (part ++ (back ++ b.used.bytes)) := by
    simp only [arena, opened, Block.push, List.append_assoc]
  have length : (b.free.bytes.reverse ++ front).length = start := by
    rw [List.length_append, List.length_reverse, ← b.free.size_eq, starts]
  unfold Fills
  rw [runFrom_write (split old) length stops same, ← split]
  rfl

theorem write_front {old back bytes : List UInt8} {stop : Nat} (stops : b.free.size + bytes.length = stop)
    (same : bytes.length = old.length) :
    b.Fills (old ++ back) (bytes ++ back) (Arena.write b.free.size stop bytes) := by
  have first : b.Fills ([] ++ (old ++ back)) ([] ++ (bytes ++ back)) (Arena.write b.free.size stop bytes) :=
    write rfl stops same
  exact first

theorem write_back {front old bytes : List UInt8} {start stop : Nat}
    (starts : b.free.size + front.length = start) (stops : start + bytes.length = stop)
    (same : bytes.length = old.length) :
    b.Fills (front ++ old) (front ++ bytes) (Arena.write start stop bytes) := by
  have last : b.Fills (front ++ (old ++ [])) (front ++ (bytes ++ [])) (Arena.write start stop bytes) :=
    write starts stops same
  rwa [List.append_nil, List.append_nil] at last

/-- Writing all that is in front. -/
theorem write_all {old bytes : List UInt8} {stop : Nat} (stops : b.free.size + bytes.length = stop)
    (same : bytes.length = old.length) :
    b.Fills old bytes (Arena.write b.free.size stop bytes) := by
  have whole : b.Fills (old ++ []) (bytes ++ []) (Arena.write b.free.size stop bytes) :=
    write_front stops same
  rwa [List.append_nil, List.append_nil] at whole

/-- Parts of one width are written one behind the other. -/
theorem inRow {width : Nat} {parts : List (List UInt8)} (same : ∀ part ∈ parts, part.length = width)
    {old : List UInt8} (length : old.length = parts.length * width) :
    b.Fills old parts.flatten (Arena.writeParts b.free.size (Arena.inRow width parts)) := by
  suffices next : ∀ (k : Nat) (front old : List UInt8), front.length = k * width →
      old.length = parts.length * width → b.Fills (front ++ old) (front ++ parts.flatten)
        (Arena.writeParts b.free.size ((parts.zipIdx k).map fun part => (part.2 * width, width, part.1))) by
    exact next 0 [] old (by simp) length
  clear length
  induction parts with
  | nil =>
    intro k front old _ length
    obtain rfl : old = [] := List.eq_nil_of_length_eq_zero (by simpa using length)
    exact of_pure b _
  | cons part parts ih =>
    intro k front old start length
    obtain ⟨first, rest⟩ := List.forall_mem_cons.mp same
    rw [List.length_cons, Nat.succ_mul] at length
    have split : old = old.take width ++ old.drop width := (List.take_append_drop _ _).symm
    have taken : (old.take width).length = width := by rw [List.length_take]; omega
    have here : b.Fills (front ++ (old.take width ++ old.drop width)) (front ++ (part ++ old.drop width))
        (Arena.write (b.free.size + k * width) (b.free.size + k * width + width) part) :=
      write (by rw [start]) (by rw [first]) (by rw [first, taken])
    have later := ih rest (k + 1) (front ++ part) (old.drop width)
      (by rw [List.length_append, start, first, Nat.succ_mul]) (by rw [List.length_drop]; omega)
    rw [List.flatten_cons, ← List.append_assoc, split]
    rw [List.append_assoc] at later
    exact here.bind later

end Fills

/-- Space that is filled is what is put in front. -/
theorem Mirrors.store {length : Nat} {bytes : List UInt8} {fill : Nat → Guarded Unit}
    (same : bytes.length = length)
    (fills : ∀ free requests old, old.length = bytes.length →
      Fills { b with free, requests } old bytes (fill free.size)) :
    b.Mirrors (Arena.store length fill) (push bytes) := by
  have does := @claim_does b bytes.length
  unfold Mirrors Arena.store push
  rw [← same, Guarded.runFrom_bind, runFrom_makeSpace, Build.runFrom_bind]
  cases ran : runFrom b (claim bytes.length) with
  | mk result b' =>
    cases result with
    | error e => rfl
    | ok old =>
      obtain ⟨length, _, free, requests, rfl⟩ := does.of_ok ran
      exact fills free requests old length

/-- Space for exactly these bytes. -/
theorem Mirrors.store_all {length : Nat} {bytes : List UInt8} (same : bytes.length = length) :
    b.Mirrors (Arena.store length fun head => Arena.write head (head + length) bytes) (push bytes) :=
  .store same fun _ _ _ room => .write_all (by rw [same]) room.symm

/-! ### Small steps -/

theorem align_mirrors (length alignment : Nat) :
    b.Mirrors (Arena.align length alignment) (align length alignment) := by
  unfold Arena.align align
  refine (Mirrors.of_modify rfl).bind fun _ b' _ => Mirrors.usedSpace_bind ?_
  dsimp only
  split
  · refine (Mirrors.store_all List.length_replicate).bind fun _ b'' _ => ?_
    split
    · exact .of_modify rfl
    · exact .of_pure _
  · exact .of_pure _

theorem pushWord_mirrors (n : Nat) : b.Mirrors (Arena.pushWord n) (pushWord n) :=
  (align_mirrors _ _).bind fun _ _ _ => .store_all (Bytes.length_encode _ _)

theorem place_mirrors (kind : ObjectKind) : b.Mirrors (Arena.place kind) (place kind) :=
  Mirrors.usedSpace_bind ((Mirrors.of_modify rfl).bind fun _ _ _ => .of_pure _)

theorem checkPlaced_mirrors (p : Placed) : b.Mirrors (Arena.checkPlaced p) (checkPlaced p) := by
  unfold Arena.checkPlaced checkPlaced
  refine Mirrors.get_bind ?_
  change b.Mirrors (if (!p.isAmong b.placed) = true then _ else _) _
  split
  · exact .of_throw _
  · exact .of_pure _

theorem pushValue_mirrors (v : Value) : b.Mirrors (Arena.pushValue v) (pushValue v) :=
  (align_mirrors _ _).bind fun _ _ _ => .store_all v.length_bytes

/-- A reference to something behind breaks no contract. -/
theorem pushReference_mirrors {rev : Nat} (behind : b.Behind rev) :
    b.Mirrors (Arena.pushReference rev) (pushReference rev) := by
  refine (align_mirrors _ _).bind_does (align_does (by decide)) fun _ b₁ given => ?_
  obtain ⟨positive, inFront⟩ := behind.kept given.1.keeps
  have fits : Contract.checkReference rev (b₁.used.size + offsetSize) = .ok () := by
    rw [b₁.used.size_eq, Contract.checkReference, if_neg (by omega), if_pos (by omega)]
  refine Mirrors.of_get ?_
  dsimp only
  rw [fits]
  refine .store (Bytes.length_encode _ _) fun free requests old room => ?_
  rw [Bytes.length_encode] at room
  have used : (opened { b₁ with free, requests } old).used.size = b₁.used.size + offsetSize := by
    change old.length + b₁.used.size = _
    rw [room, Nat.add_comm]
  have notAbove : rev ≤ b₁.used.size + offsetSize := by rw [b₁.used.size_eq]; omega
  unfold Fills
  rw [runFrom_usedSpace_bind, used, fits, Arena.enforce, pure_bind, runFrom_usedSpace_bind, used,
    Guarded.runFrom_minus_bind notAbove]
  exact Fills.write_all (by rw [Bytes.length_encode]) (by rw [Bytes.length_encode, room])

end Builder
end FlatTable

import FlatTable.Proofs.Builder.Held

/-! What steps of building fail with. Those that only write something fail for want of room. -/
namespace FlatTable
open Layout

def BuildError.IsFull : BuildError → Prop
  | bufferTooLarge requested => maxBufferSize < requested
  | allocationFailed _ => True
  | _ => False

namespace Build
variable {α β : Type} {P Q : BuildError → Prop} {b : Builder}

def FailsWith (P : BuildError → Prop) (steps : Build α) (b : Builder) : Prop :=
  ∀ e b', runFrom b steps = (.error e, b') → P e

namespace FailsWith
variable {steps : Build α} {f : α → Build β}

theorem of_pure (a : α) : FailsWith P (pure a) b := by
  intro e b' ran
  cases ran

theorem of_throw {e : BuildError} (h : P e) : FailsWith P (throw e : Build α) b := by
  intro e' b' ran
  cases ran
  exact h

theorem throw_bind {e : BuildError} (h : P e) : FailsWith P ((throw e : Build α) >>= f) b := by
  intro e' b' ran
  cases ran
  exact h

theorem of_modify (change : Builder → Builder) : FailsWith P (modify change : Build PUnit) b := by
  intro e b' ran
  cases ran

theorem mono (h : FailsWith P steps b) (le : ∀ e, P e → Q e) : FailsWith Q steps b :=
  fun e b' ran => le e (h e b' ran)

theorem bind (first : FailsWith P steps b)
    (next : ∀ a b', runFrom b steps = (.ok a, b') → FailsWith P (f a) b') :
    FailsWith P (steps >>= f) b := by
  intro e b' ran
  rw [runFrom_bind] at ran
  cases ran' : runFrom b steps with
  | mk result b₁ =>
    rw [ran'] at ran
    cases result with
    | error e' =>
      cases ran
      exact first _ _ ran'
    | ok a => exact next a b₁ ran' e b' ran

/-- The next step starts where what was done before holds. -/
theorem bind_does {mid : α → Builder → Prop} (first : FailsWith P steps b) (does : steps.Does b mid)
    (next : ∀ a b', mid a b' → FailsWith P (f a) b') : FailsWith P (steps >>= f) b :=
  first.bind fun a b' ran => next a b' (does.of_ok ran)

theorem get_bind {f : Builder → Build β} (h : FailsWith P (f b) b) : FailsWith P (get >>= f) b := h

theorem modify_bind {change : Builder → Builder} {f : PUnit → Build β}
    (h : FailsWith P (f ⟨⟩) (change b)) : FailsWith P (modify change >>= f) b := h

end FailsWith
end Build

namespace Builder
open Build
variable {b b' : Builder}

private theorem claim_fails (want : Nat) : FailsWith BuildError.IsFull (claim want) b := by
  unfold claim
  apply FailsWith.get_bind
  dsimp only
  split
  · rename_i large
    exact FailsWith.throw_bind large
  · intro e b' ran
    cases made : makeRoom want b with
    | mk result b₁ =>
      rw [made] at ran
      cases result with
      | error size =>
        cases ran
        trivial
      | ok u => cases ran

theorem push_fails (bytes : List UInt8) : FailsWith BuildError.IsFull (push bytes) b :=
  (claim_fails _).bind fun _ _ _ => .of_modify _

theorem reserve_fails (count : Nat) : FailsWith BuildError.IsFull (reserve count) b :=
  (claim_fails _).bind fun _ _ _ => .of_modify _

theorem align_fails (length alignment : Nat) :
    FailsWith BuildError.IsFull (align length alignment) b := by
  unfold align
  refine FailsWith.modify_bind (FailsWith.get_bind ?_)
  dsimp only
  split
  · refine (push_fails _).bind fun _ _ _ => ?_
    split
    · exact .of_modify _
    · exact .of_pure _
  · exact .of_pure _

/-- Padding to an alignment and then writing. -/
theorem store_fails (length alignment : Nat) (bytes : List UInt8) :
    FailsWith BuildError.IsFull (align length alignment >>= fun _ => push bytes) b :=
  (align_fails _ _).bind fun _ _ _ => push_fails _

theorem place_fails {P : BuildError → Prop} (kind : ObjectKind) : FailsWith P (place kind) b :=
  FailsWith.get_bind ((FailsWith.of_modify _).bind fun _ _ _ => .of_pure _)

/-- An object behind its length. -/
theorem counted_fails (n : Nat) (kind : ObjectKind) :
    FailsWith BuildError.IsFull (pushWord n >>= fun _ => place kind) b :=
  (store_fails _ _ _).bind fun _ _ _ => place_fails kind

/-- What is behind the length is written first. -/
theorem block_fails (length alignment : Nat) (bytes : List UInt8) (n : Nat) (kind : ObjectKind) :
    FailsWith BuildError.IsFull (align length alignment >>= fun _ => push bytes >>= fun _ =>
      pushWord n >>= fun _ => place kind) b :=
  (align_fails _ _).bind fun _ _ _ => (push_fails _).bind fun _ _ _ => counted_fails _ _

theorem createString_fails (text : String) : FailsWith BuildError.IsFull (createString text) b :=
  block_fails _ _ _ _ _

/-- A vector of scalars may have an element of another type. -/
theorem createVector_fails {P : BuildError → Prop} {t : ScalarType} {items : List Value}
    (full : ∀ e, BuildError.IsFull e → P e)
    (bad : ∀ v ∈ items, v.type ≠ t → P (.fieldTypeMismatch "vector element" t.name v.type.name)) :
    FailsWith P (createVector t items) b := by
  unfold createVector
  cases found : items.find? fun v => v.type != t with
  | some v => exact .of_throw (bad v (List.mem_of_find?_eq_some found) (by simpa using List.find?_some found))
  | none => exact (block_fails _ _ _ _ _).mono full

/-- A vtable may break a contract. -/
theorem pushVtable_fails {P : BuildError → Prop} {object : Nat} {entries : List Nat}
    (full : ∀ e, BuildError.IsFull e → P e)
    (broken : ∀ v, Contract.checkVtable entries = .error v → P (.contract v)) :
    FailsWith P (pushVtable object entries) b := by
  unfold pushVtable
  cases checked : Contract.checkVtable entries with
  | error v => exact .of_throw (broken v checked)
  | ok _ =>
    refine FailsWith.mono ((align_fails _ _).bind fun _ _ _ => ?_) full
    exact (push_fails _).bind fun _ _ _ => FailsWith.get_bind (FailsWith.of_modify _)

theorem checkPlaced_fails {P : BuildError → Prop} {p : Placed}
    (unplaced : ¬ p.isAmong b.placed → P (.unplacedOffset p.rev)) : FailsWith P (checkPlaced p) b := by
  unfold checkPlaced
  apply FailsWith.get_bind
  cases found : p.isAmong b.placed with
  | true => exact .of_pure _
  | false => exact .of_throw (unplaced (by simpa using found))

def Behind (b : Builder) (rev : Nat) : Prop := 0 < rev ∧ rev ≤ b.used.bytes.length

theorem Behind.kept {rev : Nat} (h : b.Behind rev) (keeps : b.Keeps b') : b'.Behind rev := by
  obtain ⟨front, used⟩ := keeps.used
  refine ⟨h.1, ?_⟩
  rw [used, List.length_append]
  exact Nat.le_trans h.2 (Nat.le_add_left _ _)

theorem pushReference_fails {rev : Nat} (behind : b.Behind rev) :
    FailsWith BuildError.IsFull (pushReference rev) b := by
  unfold pushReference
  refine (align_fails _ _).bind_does (align_does (by decide)) fun _ b₁ given => ?_
  apply FailsWith.get_bind
  obtain ⟨positive, inFront⟩ := behind.kept given.1.keeps
  have fits : Contract.checkReference rev (b₁.used.size + offsetSize) = .ok () := by
    rw [b₁.used.size_eq, Contract.checkReference, if_neg (by omega), if_pos (by omega)]
  dsimp only
  rw [fits]
  exact push_fails _

end Builder
end FlatTable

import FlatTable.Proofs.Builder.Limits

/-! What steps of building can fail with, whatever the builder is that they start from. -/
namespace FlatTable
open Layout

/-- Something else is wrong than a name, a number or a value that was asked for. -/
def BuildError.IsInner : BuildError → Prop
  | unknownTable _ | unknownField _ _ | deprecatedField _ _ | invalidValue _ _ => False
  | _ => True

theorem BuildError.IsFull.isInner {e : BuildError} (h : e.IsFull) : e.IsInner := by
  cases e <;> trivial

namespace Build
variable {α β : Type} {P Q : BuildError → Prop}

def Raises (P : BuildError → Prop) (steps : Build α) : Prop :=
  ∀ b e b', runFrom b steps = (.error e, b') → P e

namespace Raises
variable {steps : Build α} {f : α → Build β}

theorem of_pure (a : α) : Raises P (pure a : Build α) := fun _ => FailsWith.of_pure a

theorem of_throw {e : BuildError} (h : P e) : Raises P (throw e : Build α) := fun _ => FailsWith.of_throw h

theorem of_lift {x : Except BuildError α} (h : ∀ e, x = .error e → P e) :
    Raises P (liftM x : Build α) := by
  cases x with
  | ok a => exact of_pure a
  | error e => exact of_throw (h e rfl)

theorem of_fails (h : ∀ b, FailsWith BuildError.IsFull steps b) : Raises BuildError.IsInner steps :=
  fun b => (h b).mono fun _ => BuildError.IsFull.isInner

theorem mono (h : Raises P steps) (le : ∀ e, P e → Q e) : Raises Q steps :=
  fun b => FailsWith.mono (h b) le

theorem get_bind {f : Builder → Build β} (h : ∀ b, Raises P (f b)) : Raises P (get >>= f) :=
  fun b => FailsWith.get_bind (h b b)

theorem bind (first : Raises P steps) (next : ∀ a, steps.Returns a → Raises P (f a)) :
    Raises P (steps >>= f) :=
  fun b => FailsWith.bind (first b) fun a b' ran => next a ⟨b, b', ran⟩ b'

/-- A refusal in front of further steps. -/
theorem refuse {p : Prop} [Decidable p] {e : BuildError} {steps : Build β} (h : p → P e)
    (next : ¬ p → Raises P steps) : Raises P (if p then throw e >>= f else steps) := by
  by_cases holds : p
  · rw [if_pos holds]
    exact bind (of_throw (h holds)) fun a returns => by
      obtain ⟨_, _, ran⟩ := returns
      exact absurd ran not_runFrom_throw_eq_ok
  · rw [if_neg holds]
    exact next holds

theorem forM {l : List β} {f : β → Build PUnit} (each : ∀ x ∈ l, Raises P (f x)) :
    Raises P (l.forM f) := by
  induction l with
  | nil => exact of_pure _
  | cons x l ih =>
    rw [List.forM_eq_forM, List.forM_cons]
    exact (each x List.mem_cons_self).bind fun _ _ => ih fun y member => each y (List.mem_cons_of_mem _ member)

end Raises
end Build

namespace Builder
open Build

private theorem checkPlaced_raises (p : Placed) : Raises BuildError.IsInner (checkPlaced p) :=
  fun _ => checkPlaced_fails fun _ => trivial

theorem pushReference_raises {P : BuildError → Prop} (full : ∀ e, BuildError.IsFull e → P e)
    (contract : ∀ v, P (.contract v)) (rev : Nat) : Raises P (pushReference rev) := by
  unfold pushReference
  refine Raises.bind (fun b => (align_fails _ _).mono full) fun _ _ => Raises.get_bind fun b => ?_
  dsimp only
  split
  · exact .of_throw (contract _)
  · exact fun b => (push_fails _).mono full

private theorem pushReference_inner (rev : Nat) : Raises BuildError.IsInner (pushReference rev) :=
  pushReference_raises (fun _ => BuildError.IsFull.isInner) (fun _ => trivial) rev

theorem createString_raises (text : String) : Raises BuildError.IsInner (createString text) :=
  .of_fails fun _ => createString_fails text

theorem createVector_raises (t : ScalarType) (items : List Value) :
    Raises BuildError.IsInner (createVector t items) :=
  fun _ => createVector_fails (fun _ => BuildError.IsFull.isInner) fun _ _ _ => trivial

private theorem checkElements_raises (target : ObjectKind) (items : List Placed) :
    Raises BuildError.IsInner (checkElements target items) := by
  induction items with
  | nil => exact .of_pure _
  | cons p items ih =>
    unfold checkElements
    exact (checkPlaced_raises p).bind fun _ _ => .refuse (fun _ => trivial) fun _ => ih

theorem createReferenceVector_raises (element : ElementKind) (target : ObjectKind) (items : List Placed) :
    Raises BuildError.IsInner (createReferenceVector element target items) := by
  unfold createReferenceVector
  refine (checkElements_raises target items).bind fun _ _ => ?_
  refine (Raises.of_fails fun _ => align_fails _ _).bind fun _ _ => ?_
  refine (Raises.forM fun p _ => pushReference_inner p.rev).bind fun _ _ => ?_
  exact .of_fails fun _ => counted_fails _ _

/-! ### Tables -/

/-- Writing the fields raises what writing one of them does. -/
theorem pushSettings_raises {P : BuildError → Prop} {a : TableArgs} {t : TableDef}
    {entries : List (Option Setting × Nat)}
    (each : ∀ x i, (some x, i) ∈ entries → Raises P (pushSetting a t i x)) (written : List (Nat × Nat)) :
    Raises P (pushSettings a t entries written) := by
  induction entries generalizing written with
  | nil => exact .of_pure _
  | cons entry rest ih =>
    have ih := ih fun x i member => each x i (List.mem_cons_of_mem _ member)
    obtain ⟨x, i⟩ := entry
    cases x with
    | none => exact ih written
    | some x =>
      unfold pushSettings
      refine (each x i List.mem_cons_self).bind fun stored _ => ?_
      cases stored with
      | true => exact Raises.get_bind fun b => ih _
      | false => exact ih _

/-- Arguments that fit are never refused for a table or a field that the schema does not have. -/
theorem createTable_raises {s : Schema} {a : TableArgs} (fits : a.Fits s) :
    Raises BuildError.IsInner (createTable a) := by
  obtain ⟨t, known, _⟩ := fits.table
  have setting (x : Setting) (i : Nat) (member : (some x, i) ∈ a.settings.toList.zipIdx.reverse) :
      Raises BuildError.IsInner (pushSetting a t i x) := by
    obtain ⟨f, field, holds⟩ := fits.exists_field_of_mem known (List.mem_reverse.mp member)
    rw [← fits.schema] at holds
    exact fun b => pushSetting_fails (fun _ => BuildError.IsFull.isInner) field holds fun p _ =>
      pushReference_inner p.rev b
  have checks : Raises BuildError.IsInner (a.settings.toList.forM checkSetting) :=
    fun _ => checkSettings_fails fun _ _ _ => trivial
  unfold createTable
  rw [fits.schema, known]
  refine checks.bind fun _ _ => Raises.get_bind fun b => ?_
  refine (pushSettings_raises setting []).bind fun written _ => ?_
  refine (Raises.of_fails fun _ => align_fails _ _).bind fun _ _ => ?_
  refine (Raises.of_fails fun _ => reserve_fails _).bind fun _ _ => Raises.get_bind fun b' => ?_
  refine .refuse (fun _ => trivial) fun _ => .refuse (fun _ => trivial) fun _ => ?_
  have vtable (object : Nat) (entries : List Nat) : Raises BuildError.IsInner (pushVtable object entries) :=
    fun _ => pushVtable_fails (fun _ => BuildError.IsFull.isInner) fun _ _ => trivial
  refine (vtable _ _).bind fun _ _ => ?_
  exact .of_fails fun _ => (FailsWith.of_modify _).bind fun _ _ _ => .of_pure _

end Builder
end FlatTable

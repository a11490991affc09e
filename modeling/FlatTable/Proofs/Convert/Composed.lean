import FlatTable.Convert.Import
import FlatTable.Proofs.Builder.Settings
import FlatTable.Proofs.Builder.Steps

/-! Building from JSON only creates objects, one after the other. What holds of these steps, and goes over to
steps after steps, holds of all that is built from JSON, whether it succeeds or fails. -/
namespace FlatTable
open Build Builder

namespace Build

/-- A property of steps that holds of creating objects, tables with arguments that fit, and of steps that come
after steps it holds of. -/
structure Composes (s : Schema) (P : ∀ {α : Type}, Build α → Prop) : Prop where
  pure {α : Type} (a : α) : P (Pure.pure a)
  throw {α : Type} (e : BuildError) : P (MonadExcept.throw e : Build α)
  bind {α β : Type} {steps : Build α} {f : α → Build β} (first : P steps)
    (next : ∀ a, steps.Returns a → P (f a)) : P (steps >>= f)
  string (text : String) : P (createString text)
  vector (t : ScalarType) (items : List Value) : P (createVector t items)
  references (element : ElementKind) (target : ObjectKind) (items : List Placed) :
    P (createReferenceVector element target items)
  table (a : TableArgs) (fits : a.Fits s) : P (createTable a)

end Build

section
variable {s : Schema} {a a' : TableArgs} {t : TableDef} {i : Nat} {json : Json}

/-- A member sets its own field, if any. -/
theorem sets_of_setMember {table : Nat → Build (Ref .table)}
    {tables : FieldDef → Nat → Build (Ref (.vector .table))}
    (returns : (setMember s t i json table tables a).Returns a') : a' = a ∨ ∃ x, a.Sets i x a' := by
  obtain ⟨b, b', ran⟩ := returns
  unfold setMember at ran
  split at ran
  · exact .inl (runFrom_pure_eq_ok_iff.mp ran).1.symm
  · exact absurd ran not_runFrom_throw_eq_ok
  · right
    split at ran
    all_goals
      obtain ⟨v, b₁, _, ran⟩ := runFrom_bind_eq_ok_iff.mp (runFrom_refuse_eq_ok_iff.mp ran).2
      replace ran := (runFrom_lift_eq_ok_iff.mp ran).1
    · exact ⟨_, TableArgs.sets_of_setScalar ran⟩
    · exact ⟨_, TableArgs.sets_of_setScalar ran⟩
    · exact ⟨_, TableArgs.sets_of_setStruct ran⟩
    · exact ⟨_, TableArgs.sets_of_setReference ran⟩
    · exact ⟨_, TableArgs.sets_of_setReference ran⟩
    · exact ⟨_, TableArgs.sets_of_setReference ran⟩

/-- Setting a member keeps the arguments fitting. -/
theorem fits_of_setMember (fits : a.Fits s) {table : Nat → Build (Ref .table)}
    {tables : FieldDef → Nat → Build (Ref (.vector .table))}
    (returns : (setMember s t i json table tables a).Returns a') : a'.Fits s ∧ a'.table = a.table := by
  obtain rfl | ⟨x, sets⟩ := sets_of_setMember returns
  · exact ⟨fits, rfl⟩
  · exact ⟨fits.sets sets, sets.table⟩

theorem fits_of_setMembers (members : List (String × Json)) (fits : a.Fits s)
    (returns : (setMembers s t members a).Returns a') : a'.Fits s := by
  obtain ⟨b, b', ran⟩ := returns
  induction members generalizing a b with
  | nil =>
    rw [setMembers] at ran
    rwa [← (runFrom_pure_eq_ok_iff.mp ran).1]
  | cons member rest ih =>
    obtain ⟨name, json⟩ := member
    rw [setMembers] at ran
    split at ran
    · exact absurd ran not_runFrom_throw_eq_ok
    · obtain ⟨a₁, b₁, set, ran⟩ := runFrom_bind_eq_ok_iff.mp ran
      exact ih (fits_of_setMember fits ⟨b, b₁, set⟩).1 _ ran

end

namespace Build.Composes
variable {s : Schema} {P : ∀ {α : Type}, Build α → Prop} (composes : Composes s P)
include composes

theorem lift {α : Type} (x : Except BuildError α) : P (liftM x : Build α) := by
  cases x with
  | error e => exact composes.throw e
  | ok a => exact composes.pure a

/-- A refusal in front of other steps. -/
private theorem refuse {α β : Type} {p : Prop} [Decidable p] {e : BuildError} {f : α → Build β}
    {steps : Build β} (h : P steps) : P (if p then MonadExcept.throw e >>= f else steps) := by
  split
  · refine composes.bind (composes.throw e) fun a returns => ?_
    obtain ⟨_, _, ran⟩ := returns
    exact absurd ran not_runFrom_throw_eq_ok
  · exact h

private theorem placeStrings (f : FieldDef) (items : List Json) (placed : List (Ref .string)) :
    P (Builder.placeStrings f items placed) := by
  fun_induction Builder.placeStrings f items placed with
  | case1 placed => exact composes.pure _
  | case2 text rest placed ih => exact composes.bind (composes.string text) fun r _ => ih r
  | case3 => exact composes.throw _

private theorem placeFlat (f : FieldDef) (json : Json) : P (Builder.placeFlat s f json) := by
  unfold Builder.placeFlat
  split
  · exact composes.bind (composes.string _) fun _ _ => composes.pure _
  · exact composes.throw _
  · exact composes.bind (composes.placeStrings f _ _) fun _ _ =>
      composes.bind (composes.references _ _ _) fun _ _ => composes.pure _
  · split
    · exact composes.throw _
    · exact composes.bind (composes.lift _) fun _ _ =>
        composes.bind (composes.vector _ _) fun _ _ => composes.pure _
  · exact composes.throw _
  · exact composes.throw _

private theorem setMember {t : TableDef} {i : Nat} {json : Json} {a : TableArgs}
    {table : Nat → Build (Ref .table)} {tables : FieldDef → Nat → Build (Ref (.vector .table))}
    (ofTable : ∀ id, P (table id)) (ofTables : ∀ f id, P (tables f id)) :
    P (Builder.setMember s t i json table tables a) := by
  have set {α : Type} {steps : Build α} (first : P steps) (next : α → Except BuildError TableArgs) :
      P (steps >>= fun x => liftM (next x)) := composes.bind first fun _ _ => composes.lift _
  unfold Builder.setMember
  split
  · exact composes.pure a
  · exact composes.throw _
  · split
    · exact composes.refuse (set (composes.lift _) _)
    · exact composes.refuse (set (composes.lift _) _)
    · exact composes.refuse (set (composes.lift _) _)
    · exact composes.refuse (set (ofTable _) _)
    · exact composes.refuse (set (ofTables _ _) _)
    · exact composes.refuse (set (composes.placeFlat _ _) _)

mutual

/-- A property of creating objects holds of building a table from JSON. -/
theorem buildTable (id : Nat) (json : Json) : P (Builder.buildTable s id json) := by
  match json with
  | .object members =>
    rw [Builder.buildTable]
    split
    · exact composes.throw _
    · refine composes.bind (composes.lift _) fun a returns => ?_
      obtain ⟨_, _, ran⟩ := returns
      have fits := (TableArgs.new_fits (runFrom_lift_eq_ok_iff.mp ran).1).1
      refine composes.bind (setMembers _ members fits) fun a' returns => ?_
      exact composes.table a' (fits_of_setMembers members fits returns)
  | .null | .bool _ | .integer _ | .real _ | .string _ | .array _ =>
    rw [Builder.buildTable]
    · split
      · exact composes.throw _
      · exact composes.throw _
    all_goals simp

private theorem setMembers (t : TableDef) (members : List (String × Json)) {a : TableArgs}
    (fits : a.Fits s) : P (Builder.setMembers s t members a) := by
  match members with
  | [] =>
    rw [Builder.setMembers]
    exact composes.pure a
  | (name, json) :: rest =>
    rw [Builder.setMembers]
    split
    · exact composes.throw _
    · refine composes.bind ?_ fun a' returns => ?_
      · exact composes.setMember (fun id => buildTable id json)
          fun f id => buildTableVector f id json
      · exact setMembers t rest (fits_of_setMember fits returns).1

private theorem buildTableVector (f : FieldDef) (id : Nat) (json : Json) :
    P (Builder.buildTableVector s f id json) := by
  match json with
  | .array items =>
    rw [Builder.buildTableVector]
    exact composes.bind (buildTables id items []) fun _ _ => composes.references _ _ _
  | .null | .bool _ | .integer _ | .real _ | .string _ | .object _ =>
    rw [Builder.buildTableVector]
    · exact composes.throw _
    all_goals simp

private theorem buildTables (id : Nat) (items : List Json) (built : List (Ref .table)) :
    P (Builder.buildTables s id items built) := by
  match items with
  | [] =>
    rw [Builder.buildTables]
    exact composes.pure _
  | json :: rest =>
    rw [Builder.buildTables]
    exact composes.bind (buildTable id json) fun r _ =>
      buildTables id rest (r :: built)

end

end Build.Composes
end FlatTable

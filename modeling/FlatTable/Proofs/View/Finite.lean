import FlatTable.Proofs.Scalar.Shown
import FlatTable.Proofs.View.Readable

/-! Tables that store no infinity and no NaN, of which JSON knows nothing. -/
namespace FlatTable

def FieldValue.Finite (s : Schema) : FieldValue → Prop
  | .scalar v => v.isFinite
  | .struct view => ∀ i v, view.member? s i = some v → v.isFinite
  | .vector view => ∀ i v, view.get? i = some (.scalar v) → v.isFinite
  | .absent | .string _ | .table _ _ => True

namespace FieldValue
variable {s : Schema}

private theorem finite_struct_iff {view : StructView} :
    (FieldValue.struct view).Finite s ↔
      ∀ i < ((s.structs[view.id]?).map fun d => d.members.length).getD 0,
        (view.member? s i).all Value.isFinite := by
  constructor
  · intro finite i _
    cases read : view.member? s i with
    | none => rfl
    | some v => exact finite i v read
  · intro finite i v read
    have inside : i < ((s.structs[view.id]?).map fun d => d.members.length).getD 0 := by
      simp only [StructView.member?, Option.bind_eq_bind, Option.bind_eq_some_iff] at read
      obtain ⟨d, known, m, member, _⟩ := read
      rw [known]
      exact (List.getElem?_eq_some_iff.mp member).1
    have here := finite i inside
    rwa [read] at here

private def elementFinite : Option FieldValue → Bool
  | some (.scalar v) => v.isFinite
  | _ => true

private theorem finite_vector_iff {view : FieldVector} :
    (FieldValue.vector view).Finite s ↔
      ∀ i < view.length, elementFinite (view.get? i) := by
  constructor
  · intro finite i _
    unfold elementFinite
    split
    · exact finite i _ (by assumption)
    · rfl
  · intro finite i v read
    have inside : i < view.length := by
      by_contra outside
      rw [FieldVector.get?, if_neg outside] at read
      cases read
    have here := finite i inside
    rwa [read] at here

instance (s : Schema) (value : FieldValue) : Decidable (value.Finite s) :=
  match value with
  | .scalar v => inferInstanceAs (Decidable (v.isFinite = true))
  | .struct _ => decidable_of_iff _ finite_struct_iff.symm
  | .vector _ => decidable_of_iff _ finite_vector_iff.symm
  | .absent => .isTrue trivial
  | .string _ => .isTrue trivial
  | .table _ _ => .isTrue trivial

end FieldValue

/-- The floating-point numbers that a table stores are finite. Its defaults need not be. -/
def TableView.StoresFinite (t : TableView) (s : Schema) (id : Nat) : Prop :=
  ∀ i, (t.buffer.fieldPosition? t.position i).isSome → (t.field s id i).Finite s

/-- Only the fields of the schema need to be looked at. -/
private theorem TableView.storesFinite_iff {t : TableView} {s : Schema} {id : Nat} :
    t.StoresFinite s id ↔ ∀ i < ((s.tables[id]?).map fun d => d.fields.size).getD 0,
      (t.buffer.fieldPosition? t.position i).isSome → (t.field s id i).Finite s := by
  refine ⟨fun finite i _ => finite i, fun finite i => ?_⟩
  by_cases inside : i < ((s.tables[id]?).map fun d => d.fields.size).getD 0
  · exact finite i inside
  · have unknown : s.field? id i = none := by
      cases known : s.tables[id]? with
      | none => rw [Schema.field?, known, Option.bind_none]
      | some d =>
        rw [known] at inside
        rw [Schema.field?, known, Option.bind_some]
        exact Array.getElem?_eq_none (Nat.le_of_not_lt inside)
    rw [TableView.field, unknown]
    exact fun _ => trivial

instance (t : TableView) (s : Schema) (id : Nat) : Decidable (t.StoresFinite s id) :=
  decidable_of_iff _ TableView.storesFinite_iff.symm

namespace Schema
variable {s : Schema} {t t' t'' : TableView} {id id' id'' : Nat}

/-- All floating-point numbers are finite that are stored in tables that reading leads to. -/
def FloatsFinite (s : Schema) (t : TableView) (id : Nat) : Prop :=
  ∀ t' id', s.Reached t id t' id' → t'.StoresFinite s id'

theorem Reached.trans (h : s.Reached t id t' id') (h' : s.Reached t' id' t'' id'') :
    s.Reached t id t'' id'' := by
  induction h' with
  | root => exact h
  | field before read ih => exact .field ih read
  | element before read get ih => exact .element ih read get

theorem FloatsFinite.here (h : s.FloatsFinite t id) : t.StoresFinite s id := h t id .root

theorem FloatsFinite.reached (h : s.FloatsFinite t id) (reached : s.Reached t id t' id') :
    s.FloatsFinite t' id' := fun u id'' further => h u id'' (reached.trans further)

/-- Reading leads from a table to itself, or to a table below it and on from there. -/
theorem Reached.cases_nested (h : s.Reached t id t' id') :
    (t' = t ∧ id' = id) ∨
      ∃ n ∈ t.buffer.nested s t.position id, s.Reached ⟨t.buffer, n.1⟩ n.2 t' id' := by
  have first {u : TableView} {idU : Nat} (same : u.buffer = t.buffer)
      (member : (u.position, idU) ∈ t.buffer.nested s t.position id) :
      ∃ n ∈ t.buffer.nested s t.position id, s.Reached ⟨t.buffer, n.1⟩ n.2 u idU :=
    ⟨_, member, by rw [← same]; exact .root⟩
  induction h with
  | root => exact .inl ⟨rfl, rfl⟩
  | field before read ih =>
    rcases ih with ⟨rfl, rfl⟩ | ⟨n, member, reached⟩
    · obtain ⟨same, member⟩ := TableView.nested_of_field read
      exact .inr (first same member)
    · exact .inr ⟨n, member, .field reached read⟩
  | element before read get ih =>
    rcases ih with ⟨rfl, rfl⟩ | ⟨n, member, reached⟩
    · obtain ⟨same, member⟩ := TableView.nested_of_element read get
      exact .inr (first same member)
    · exact .inr ⟨n, member, .element reached read get⟩

/-- The tables below a table can be looked at one by one. -/
theorem FloatsFinite.of_nested (here : t.StoresFinite s id)
    (below : ∀ n ∈ t.buffer.nested s t.position id, s.FloatsFinite ⟨t.buffer, n.1⟩ n.2) :
    s.FloatsFinite t id := by
  intro t' id' reached
  rcases reached.cases_nested with ⟨rfl, rfl⟩ | ⟨n, member, further⟩
  · exact here
  · exact below n member t' id' further

end Schema
end FlatTable

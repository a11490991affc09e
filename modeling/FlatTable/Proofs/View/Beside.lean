import FlatTable.Proofs.View.Rendered

/-! Two tables read beside each other, each in its own buffer: whatever the layouts are, they are compared by
what their fields read as and by the tables that these lead to. -/
namespace FlatTable

def TableView.Stores (t : TableView) (i : Nat) : Prop := (t.buffer.fieldPosition? t.position i).isSome

namespace FieldValue

inductive SameItem (R : TableView → TableView → Nat → Prop) : FieldValue → FieldValue → Prop where
  | scalar (v : Value) : SameItem R (.scalar v) (.scalar v)
  | string (text : String) : SameItem R (.string text) (.string text)
  | table {t u : TableView} {id : Nat} (related : R t u id) : SameItem R (.table t id) (.table u id)

inductive Same (s : Schema) (R : TableView → TableView → Nat → Prop) : FieldValue → FieldValue → Prop where
  | absent : Same s R .absent .absent
  | item {v w : FieldValue} (same : SameItem R v w) : Same s R v w
  | struct {v w : StructView} (id : v.id = w.id) (members : ∀ j, v.member? s j = w.member? s j) :
      Same s R (.struct v) (.struct w)
  | vector {v w : FieldVector} (length : v.length = w.length)
      (elements : ∀ j, Option.Rel (SameItem R) (v.get? j) (w.get? j)) : Same s R (.vector v) (.vector w)

/-- Values that read the same, or a floating-point number and a default that is equal to it. -/
def Alike (s : Schema) (R : TableView → TableView → Nat → Prop) (default : Option Value)
    (v w : FieldValue) : Prop :=
  Same s R v w ∨ ∃ a d format, v = .scalar a ∧ w = .scalar d ∧ default = some d ∧
    a.type.format? = some format ∧ d.numEq a

/-- Vectors whose elements read the same, none of them missing. -/
theorem Same.of_items {s : Schema} {R : TableView → TableView → Nat → Prop} {v w : FieldVector}
    {l m : List FieldValue} (length : v.length = l.length) (length' : w.length = m.length)
    (elements : v.items = l) (elements' : w.items = m) (same : l.Forall₂ (SameItem R) m) :
    Same s R (.vector v) (.vector w) := by
  refine .vector (by rw [length, length', same.length_eq]) fun j => ?_
  rw [FieldVector.get?_eq_getElem?_items (by rw [elements, length]), elements,
    FieldVector.get?_eq_getElem?_items (by rw [elements', length']), elements']
  by_cases inside : j < l.length
  · have inside' := same.length_eq ▸ inside
    rw [List.getElem?_eq_getElem inside, List.getElem?_eq_getElem inside']
    exact .some (same.get inside inside')
  · rw [List.getElem?_eq_none (by omega), List.getElem?_eq_none (by rw [← same.length_eq]; omega)]
    exact .none

section
variable {s : Schema} {R : TableView → TableView → Nat → Prop} {default : Option Value}
  {v w : FieldValue} {t u : TableView} {id : Nat} {l m : FieldVector}

theorem Alike.table_left (alike : (FieldValue.table t id).Alike s R default w) :
    ∃ u, w = .table u id ∧ R t u id := by
  rcases alike with same | ⟨_, _, _, isScalar, _⟩
  · cases same with
    | item same =>
      cases same with
      | table related => exact ⟨_, rfl, related⟩
  · cases isScalar

theorem Alike.table_right (alike : v.Alike s R default (.table u id)) : ∃ t, v = .table t id ∧ R t u id := by
  rcases alike with same | ⟨_, _, _, _, isScalar, _⟩
  · cases same with
    | item same =>
      cases same with
      | table related => exact ⟨_, rfl, related⟩
  · cases isScalar

theorem Alike.vector_left (alike : (FieldValue.vector l).Alike s R default w) :
    ∃ m, w = .vector m ∧ ∀ j, Option.Rel (SameItem R) (l.get? j) (m.get? j) := by
  rcases alike with same | ⟨_, _, _, isScalar, _⟩
  · cases same with
    | item same => cases same
    | vector _ elements => exact ⟨_, rfl, elements⟩
  · cases isScalar

theorem Alike.vector_right (alike : v.Alike s R default (.vector m)) :
    ∃ l, v = .vector l ∧ ∀ j, Option.Rel (SameItem R) (l.get? j) (m.get? j) := by
  rcases alike with same | ⟨_, _, _, _, isScalar, _⟩
  · cases same with
    | item same => cases same
    | vector _ elements => exact ⟨_, rfl, elements⟩
  · cases isScalar

/-- An element that is a table is one on both sides. -/
theorem SameItem.table_left {a b : Option FieldValue} (same : Option.Rel (SameItem R) a b)
    (here : a = some (.table t id)) : ∃ u, b = some (.table u id) ∧ R t u id := by
  subst here
  cases same with
  | some same =>
    cases same with
    | table related => exact ⟨_, rfl, related⟩

theorem SameItem.table_right {a b : Option FieldValue} (same : Option.Rel (SameItem R) a b)
    (here : b = some (.table u id)) : ∃ t, a = some (.table t id) ∧ R t u id := by
  subst here
  cases same with
  | some same =>
    cases same with
    | table related => exact ⟨_, rfl, related⟩

end
end FieldValue

namespace Schema
variable {s : Schema} {root root' : TableView} {rootId : Nat}

/-- The tables that the same references lead to, from two roots on. -/
inductive Beside (s : Schema) (root root' : TableView) (rootId : Nat) :
    TableView → TableView → Nat → Prop where
  | root : Beside s root root' rootId root root' rootId
  | field {t t' u u' : TableView} {id id' i : Nat} (before : Beside s root root' rootId t u id)
      (read : t.field s id i = .table t' id') (read' : u.field s id i = .table u' id') :
      Beside s root root' rootId t' u' id'
  | element {t t' u u' : TableView} {id id' i j : Nat} {v v' : FieldVector}
      (before : Beside s root root' rootId t u id) (read : t.field s id i = .vector v)
      (read' : u.field s id i = .vector v') (get : v.get? j = some (.table t' id'))
      (get' : v'.get? j = some (.table u' id')) : Beside s root root' rootId t' u' id'

/-- Tables that `R` relates read alike, and lead to tables that it relates. -/
def Simulates (s : Schema) (R : TableView → TableView → Nat → Prop) : Prop :=
  ∀ t u id, R t u id → ∀ i, (t.field s id i).Alike s R (s.fieldDefault? id i) (u.field s id i)

/-- Of the fields that a table stores the one beside it stores all but scalars that are equal to the default,
and it stores no others. -/
def OmitsScalars (s : Schema) (R : TableView → TableView → Nat → Prop) : Prop :=
  ∀ t u id, R t u id → ∀ i,
    (u.Stores i → t.Stores i) ∧
    (t.Stores i → ¬ u.Stores i →
      ∃ v d, t.field s id i = .scalar v ∧ s.fieldDefault? id i = some d ∧ d.numEq v)

theorem Beside.reached {t u : TableView} {id : Nat} (beside : s.Beside root root' rootId t u id) :
    s.Reached root rootId t id := by
  induction beside with
  | root => exact .root
  | field _ read _ ih => exact ih.field read
  | element _ read _ get _ ih => exact ih.element read get

section
variable {R : TableView → TableView → Nat → Prop} (simulates : s.Simulates R)
  (roots : R root root' rootId) {t u : TableView} {id : Nat}
include simulates roots

theorem Simulates.related (beside : s.Beside root root' rootId t u id) : R t u id := by
  induction beside with
  | root => exact roots
  | @field t t' u u' id id' i _ read read' ih =>
    have alike := simulates _ _ _ ih i
    rw [read, read'] at alike
    obtain ⟨w, same, related⟩ := alike.table_left
    cases same
    exact related
  | @element t t' u u' id id' i j v v' _ read read' get get' ih =>
    have alike := simulates _ _ _ ih i
    rw [read, read'] at alike
    obtain ⟨w, same, elements⟩ := alike.vector_left
    cases same
    obtain ⟨x, same, related⟩ := FieldValue.SameItem.table_left (elements j) get
    cases get'.symm.trans same
    exact related

/-- Tables beside each other read alike, and the tables that they lead to are beside each other. -/
theorem Simulates.beside : s.Simulates (s.Beside root root' rootId) := by
  intro t u id beside i
  have alike := simulates t u id (simulates.related roots beside) i
  rcases alike with same | equal
  · refine .inl ?_
    generalize read : t.field s id i = v at same
    generalize read' : u.field s id i = w at same
    cases same with
    | absent => exact .absent
    | item same =>
      cases same with
      | scalar v => exact .item (.scalar v)
      | string text => exact .item (.string text)
      | table _ => exact .item (.table (.field beside read read'))
    | struct id members => exact .struct id members
    | @vector l m length elements =>
      refine .vector length fun j => ?_
      have here := elements j
      generalize get : l.get? j = a at here
      generalize get' : m.get? j = b at here
      cases here with
      | none => exact .none
      | some same =>
        cases same with
        | scalar v => exact .some (.scalar v)
        | string text => exact .some (.string text)
        | table _ => exact .some (.table (.element beside read read' get get'))
  · exact .inr equal

/-- A table that is reached in one buffer has a table beside it in the other. -/
theorem Simulates.exists_right (reached : s.Reached root rootId t id) :
    ∃ u, s.Beside root root' rootId t u id := by
  induction reached with
  | root => exact ⟨root', .root⟩
  | @field t t' id id' i _ read ih =>
    obtain ⟨u, beside⟩ := ih
    have alike := simulates.beside roots t u id beside i
    rw [read] at alike
    obtain ⟨u', _, related⟩ := alike.table_left
    exact ⟨u', related⟩
  | @element t t' id id' i j v _ read get ih =>
    obtain ⟨u, beside⟩ := ih
    have alike := simulates.beside roots t u id beside i
    rw [read] at alike
    obtain ⟨v', _, elements⟩ := alike.vector_left
    obtain ⟨u', _, related⟩ := FieldValue.SameItem.table_left (elements j) get
    exact ⟨u', related⟩

theorem Simulates.exists_left (reached : s.Reached root' rootId u id) :
    ∃ t, s.Beside root root' rootId t u id := by
  induction reached with
  | root => exact ⟨root, .root⟩
  | @field u u' id id' i _ read ih =>
    obtain ⟨t, beside⟩ := ih
    have alike := simulates.beside roots t u id beside i
    rw [read] at alike
    obtain ⟨t', _, related⟩ := alike.table_right
    exact ⟨t', related⟩
  | @element u u' id id' i j v _ read get ih =>
    obtain ⟨t, beside⟩ := ih
    have alike := simulates.beside roots t u id beside i
    rw [read] at alike
    obtain ⟨v', _, elements⟩ := alike.vector_right
    obtain ⟨t', _, related⟩ := FieldValue.SameItem.table_right (elements j) get
    exact ⟨t', related⟩

end

/-! ### Rendering -/

section
variable {R : TableView → TableView → Nat → Prop} {f : TableView → Nat → Json}

private theorem itemJson_eq (respects : ∀ t u id, R t u id → f t id = f u id) {v w : FieldValue}
    (same : v.SameItem R w) (enum : Option Nat) : s.itemJson f enum v = s.itemJson f enum w := by
  cases same with
  | scalar v | string text => rfl
  | table related => exact respects _ _ _ related

/-- What reads the same is rendered the same. -/
private theorem valueJson_eq (respects : ∀ t u id, R t u id → f t id = f u id) {v w : FieldValue}
    (same : v.Same s R w) (enum : Option Nat) : s.valueJson f enum v = s.valueJson f enum w := by
  cases same with
  | absent => rfl
  | item same =>
    have rendered := @itemJson_eq s R f respects _ _ same enum
    cases same <;> exact rendered
  | @struct v w id members =>
    simp only [valueJson, itemJson, structJson, id, members]
  | @vector v w length elements =>
    have items (n : Nat) (k : Nat) : (readWhile v.get? k n).map (s.itemJson f enum) =
        (readWhile w.get? k n).map (s.itemJson f enum) := by
      induction n generalizing k with
      | zero => rfl
      | succ n ih =>
        have here := elements k
        rw [readWhile, readWhile]
        cases left : v.get? k with
        | none =>
          rw [left] at here
          cases right : w.get? k with
          | none => rfl
          | some b => rw [right] at here; cases here
        | some a =>
          rw [left] at here
          cases right : w.get? k with
          | none => rw [right] at here; cases here
          | some b =>
            rw [right] at here
            cases here with
            | some same =>
              simp only [List.map_cons]
              rw [itemJson_eq respects same, ih (k + 1)]
    simp only [valueJson, FieldVector.items, length, items]

/-- Tables whose fields read the same, as do those of the tables below them, are rendered the same. -/
theorem tableJson_eq_of_same
    (same : ∀ t u id, R t u id → ∀ i, (t.field s id i).Same s R (u.field s id i)) {t u : TableView}
    {id : Nat} (related : R t u id) : s.tableJson t id = s.tableJson u id := by
  have within (fuel : Nat) : ∀ t u id, R t u id →
      s.tableJsonWithin fuel t id = s.tableJsonWithin fuel u id := by
    induction fuel with
    | zero => exact fun _ _ _ _ => rfl
    | succ fuel ih =>
      intro t u id related
      rw [tableJsonWithin, tableJsonWithin]
      cases found : s.tables[id]? with
      | none => simp only [membersJson, found]
      | some d =>
        rw [membersJson_eq found, membersJson_eq found]
        refine congrArg Json.ofMembers (List.filterMap_congr fun field _ => ?_)
        have here := same t u id related field.2
        have rendered := valueJson_eq ih here (enumOf? field.1.type)
        rw [memberJson?, memberJson?]
        generalize t.field s id field.2 = v at *
        generalize u.field s id field.2 = w at *
        cases here with
        | absent => rfl
        | item here => cases here <;> exact congrArg (fun json => some (field.1.name, json)) rendered
        | struct | vector => exact congrArg (fun json => some (field.1.name, json)) rendered
  rw [tableJson, tableJson,
    tableJsonWithin_eq (Nat.lt_succ_self _)
      (Nat.lt_succ_of_le (Nat.le_add_right _ (u.buffer.size - u.position))),
    within _ t u id related]
  exact tableJsonWithin_eq (Nat.lt_succ_of_le (Nat.le_add_left _ _)) (Nat.lt_succ_self _)

/-- Tables that read alike are rendered the same, if floating-point numbers that are equal to a default are
the default. -/
theorem Simulates.tableJson_eq (simulates : s.Simulates R)
    (exact : ∀ t u id, R t u id → ∀ i v d, t.field s id i = .scalar v → s.fieldDefault? id i = some d →
      d.numEq v → d = v) {t u : TableView} {id : Nat} (related : R t u id) :
    s.tableJson t id = s.tableJson u id := by
  refine tableJson_eq_of_same (fun t u id related i => ?_) related
  rcases simulates t u id related i with same | ⟨v, d, _, read, read', default, _, equal⟩
  · exact same
  · obtain rfl := exact t u id related i v d read default equal
    rw [read, read']
    exact .item (.scalar d)

end
end Schema
end FlatTable

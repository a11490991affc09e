import FlatTable.Proofs.Convert.Made

/-! Tables whose fields are asked for one after the other, some of them more than once and some in vain: the
arguments hold what was asked of each field last. -/
namespace FlatTable
open Build Builder

namespace Schema
variable {s : Schema} {id : Nat}

def asked? (s : Schema) (id : Nat) (name : String) (d : Draft) : Option (Nat × Draft) :=
  (s.fieldNamed? id name).bind fun field =>
    if field.2.deprecated = false ∧ d.HasType s field.2.type then some (field.1, d) else none

theorem asked?_eq_some_iff {name : String} {d : Draft} {e : Nat × Draft} :
    s.asked? id name d = some e ↔ ∃ f, s.fieldNamed? id name = some (e.1, f) ∧
      f.deprecated = false ∧ d.HasType s f.type ∧ e.2 = d := by
  obtain ⟨i, d'⟩ := e
  rw [asked?, Option.bind_eq_some_iff]
  constructor
  · rintro ⟨⟨j, f⟩, named, given⟩
    split at given
    · rename_i holds
      obtain ⟨rfl, rfl⟩ := Prod.mk.inj (Option.some.inj given)
      exact ⟨f, named, holds.1, holds.2, rfl⟩
    · cases given
  · rintro ⟨f, named, live, hasType, rfl⟩
    exact ⟨(i, f), named, if_pos ⟨live, hasType⟩⟩

def settled (s : Schema) (id : Nat) (asked : List (Nat × Draft)) : List (Nat × Draft) :=
  (s.byName id).filterMap fun i => (asked.reverse.lookup i).map (i, ·)

theorem mem_settled {asked : List (Nat × Draft)} {e : Nat × Draft} :
    e ∈ s.settled id asked ↔
      (s.field? id e.1).isSome ∧ asked.reverse.lookup e.1 = some e.2 := by
  obtain ⟨i, d⟩ := e
  simp only [settled, List.mem_filterMap, mem_byName, Option.map_eq_some_iff, Prod.mk.injEq]
  constructor
  · rintro ⟨j, present, d', found, rfl, rfl⟩
    exact ⟨present, found⟩
  · rintro ⟨present, found⟩
    exact ⟨i, present, d, found, rfl, rfl⟩

theorem mem_of_settled {asked : List (Nat × Draft)} {e : Nat × Draft} (member : e ∈ s.settled id asked) :
    e ∈ asked := by
  obtain ⟨before, after, split, _⟩ := List.lookup_eq_some_iff.mp (mem_settled.mp member).2
  rw [← List.mem_reverse, split]
  exact List.mem_append_right _ List.mem_cons_self

theorem settled_ordered (valid : s.Valid) (asked : List (Nat × Draft)) :
    s.Ordered id (s.settled id asked) := by
  refine (byName_ascending valid id).filterMap _ ?_
  intro i j before e first e' second
  obtain ⟨_, _, rfl⟩ := Option.map_eq_some_iff.mp first
  obtain ⟨_, _, rfl⟩ := Option.map_eq_some_iff.mp second
  exact before

end Schema

/-! ### Adding -/

namespace Add
variable {s : Schema} {a a' : TableArgs} {id : Nat}

def setting : Add → Setting
  | scalar _ v => .scalar v
  | struct _ values => .struct values
  | reference _ p => .reference p

/-- A field is found by its name. -/
private theorem fieldId_eq_ok_iff (isOpen : a.Open s id) {name : String} {i : Nat} :
    a.fieldId name = .ok i ↔ ∃ f, s.fieldNamed? id name = some (i, f) := by
  obtain ⟨rfl, rfl⟩ := isOpen
  unfold TableArgs.fieldId Schema.fieldNamed?
  cases known : a.schema.tables[a.table]? with
  | none => simp
  | some t =>
    cases number : t.fieldId? name with
    | none => simp [number]
    | some j =>
      obtain ⟨f, found, _⟩ := TableDef.exists_field number
      simp [number, found]

/-- Something is added where the field may still be used and can hold it, whatever else has been set. -/
theorem apply_eq_ok_iff (isOpen : a.Open s id) {add : Add} :
    add.apply a = .ok a' ↔ ∃ i f, s.fieldNamed? id add.name = some (i, f) ∧ f.deprecated = false ∧
      add.setting.Fits s f.type ∧ a' = a.set i add.setting := by
  have sets {i : Nat} {x : Setting} (named : ∃ f, s.fieldNamed? id add.name = some (i, f))
      (sets : a.Sets i x a') : ∃ i f, s.fieldNamed? id add.name = some (i, f) ∧
        f.deprecated = false ∧ x.Fits s f.type ∧ a' = a.set i x := by
    obtain ⟨f, named⟩ := named
    obtain ⟨g, field, live, holds, rfl⟩ := sets
    rw [isOpen.schema] at field holds
    rw [isOpen.table] at field
    obtain rfl : f = g := Option.some.inj ((Schema.field?_of_fieldNamed? named).1.symm.trans field)
    exact ⟨i, f, named, live, holds, rfl⟩
  constructor
  · intro applied
    cases add with
    | scalar name v =>
      obtain ⟨i, number, set⟩ := bind_eq_ok_iff.mp applied
      exact sets ((fieldId_eq_ok_iff isOpen).mp number) (TableArgs.sets_of_setScalar set)
    | struct name values =>
      obtain ⟨i, number, set⟩ := bind_eq_ok_iff.mp applied
      exact sets ((fieldId_eq_ok_iff isOpen).mp number) (TableArgs.sets_of_setStruct set)
    | reference name p =>
      obtain ⟨i, number, set⟩ := bind_eq_ok_iff.mp applied
      exact sets ((fieldId_eq_ok_iff isOpen).mp number) (TableArgs.sets_of_setReference set)
  · rintro ⟨i, f, named, live, holds, rfl⟩
    have number := (fieldId_eq_ok_iff isOpen).mpr ⟨f, named⟩
    have field : a.schema.field? a.table i = some f := by
      rw [isOpen.schema, isOpen.table]
      exact (Schema.field?_of_fieldNamed? named).1
    rw [← isOpen.schema] at holds
    cases add with
    | scalar name v =>
      exact bind_eq_ok_iff.mpr ⟨i, number, TableArgs.setScalar_eq field live holds⟩
    | struct name values =>
      obtain ⟨d, struct, types⟩ := holds
      exact bind_eq_ok_iff.mpr ⟨i, number, TableArgs.setStruct_eq field live struct types⟩
    | reference name p =>
      exact bind_eq_ok_iff.mpr ⟨i, number, TableArgs.setReference_eq field live holds⟩

end Add

/-! ### What has been asked for last -/

/-- The arguments hold what was asked of each field last. -/
structure TableArgs.Heeds (s : Schema) (h : History) (id : Nat) (asked : List (Nat × Draft))
    (a : TableArgs) : Prop where
  isOpen : a.Open s id
  size : ∃ t, s.tables[id]? = some t ∧ a.settings.size = t.fields.size
  typed : TableArgs.Typed s id asked
  sound : ∀ e ∈ asked, e.2.Sound s
  set : ∀ i d, asked.reverse.lookup i = some d → ∃ x, a.settings[i]? = some (some x)
  made : ∀ (i : Nat) x, a.settings[i]? = some (some x) →
    ∃ d, asked.reverse.lookup i = some d ∧ d.Made h x

namespace TableArgs
variable {s : Schema} {h : History} {id : Nat} {asked : List (Nat × Draft)} {a : TableArgs}

theorem blank_heeds (h : History) (known : (s.tables[id]?).isSome) :
    (blank s id).Heeds s h id [] where
  isOpen := blank_open s id
  size := (blank_holds h known).size
  typed := by simp [Typed]
  sound := by simp
  set := by simp
  made i x set := by simp [blank, Array.getElem?_replicate] at set

/-- One more thing is asked for. -/
theorem Heeds.set_of_asked (heeds : a.Heeds s h id asked) {e : Nat × Draft} {name : String} {d : Draft}
    {x : Setting} (isAsked : s.asked? id name d = some e) (sound : d.Sound s) (made : d.Made h x) :
    (a.set e.1 x).Heeds s h id (asked ++ [e]) := by
  obtain ⟨i, d'⟩ := e
  obtain ⟨f, named, live, hasType, rfl⟩ := Schema.asked?_eq_some_iff.mp isAsked
  have field := (Schema.field?_of_fieldNamed? named).1
  obtain ⟨t, known, size⟩ := heeds.size
  have inside : i < a.settings.size := by
    rw [Schema.field?, known, Option.bind_some] at field
    rw [size]
    exact (Array.getElem?_eq_some_iff.mp field).1
  have latest (j : Nat) : (asked ++ [(i, d')]).reverse.lookup j =
      if j = i then some d' else asked.reverse.lookup j := by
    rw [List.reverse_append, List.reverse_singleton, List.singleton_append, List.lookup_cons]
    cases same : j == i with
    | true => rw [if_pos (beq_iff_eq.mp same)]
    | false => rw [if_neg (beq_eq_false_iff_ne.mp same)]
  refine ⟨heeds.isOpen.set i x, ⟨t, known, by simp [TableArgs.set, size]⟩, ?_, ?_, fun j d found => ?_,
    fun j y set => ?_⟩
  · exact List.forall_mem_append.mpr ⟨heeds.typed, by simpa using ⟨f, field, live, hasType⟩⟩
  · exact List.forall_mem_append.mpr ⟨heeds.sound, by simpa using sound⟩
  · rw [latest] at found
    simp only [TableArgs.set, Array.getElem?_setIfInBounds]
    split at found
    · rename_i same
      subst same
      exact ⟨x, by simp [inside]⟩
    · rename_i other
      rw [if_neg fun same => other same.symm]
      exact heeds.set j d found
  · rw [latest]
    simp only [TableArgs.set, Array.getElem?_setIfInBounds] at set
    by_cases same : j = i
    · subst same
      rw [if_pos rfl, if_pos inside] at set
      obtain rfl := Option.some.inj (Option.some.inj set)
      exact ⟨d', if_pos rfl, made⟩
    · rw [if_neg fun same' => same same'.symm] at set
      rw [if_neg same]
      exact heeds.made j y set

variable (heeds : a.Heeds s h id asked)
include heeds

theorem Heeds.holds : a.Holds s h id (s.settled id asked) where
  schema := heeds.isOpen.schema
  table := heeds.isOpen.table
  size := heeds.size
  made e member := by
    have latest := (Schema.mem_settled.mp member).2
    obtain ⟨x, set⟩ := heeds.set _ _ latest
    obtain ⟨d, latest', made⟩ := heeds.made _ x set
    obtain rfl := Option.some.inj (latest.symm.trans latest')
    exact ⟨x, set, made⟩
  only i x set := by
    obtain ⟨d, latest, _⟩ := heeds.made i x set
    obtain ⟨t, known, size⟩ := heeds.size
    have inside := (Array.getElem?_eq_some_iff.mp set).1
    rw [size] at inside
    refine List.mem_map.mpr ⟨(i, d), Schema.mem_settled.mpr ⟨?_, latest⟩, rfl⟩
    rw [Schema.field?, known, Option.bind_some, Array.getElem?_eq_getElem inside]
    rfl

theorem Heeds.typed_settled : TableArgs.Typed s id (s.settled id asked) :=
  fun e member => heeds.typed e (Schema.mem_of_settled member)

/-- The table that is asked for can be built. -/
theorem Heeds.sound_kept (valid : s.Valid) (forced : Bool) :
    (TableDraft.mk id (Draft.kept s forced id (s.settled id asked))).Sound s := by
  obtain ⟨t, known, _⟩ := heeds.size
  have member {e : Nat × Draft} (kept : e ∈ Draft.kept s forced id (s.settled id asked)) : e ∈ asked :=
    Schema.mem_of_settled (Draft.mem_kept.mp kept).1
  exact .mk (by rw [known]; rfl) ((Schema.settled_ordered valid asked).sublist List.filter_sublist)
    (fun e kept => heeds.typed e (member kept)) fun e kept => heeds.sound e (member kept)

end TableArgs
end FlatTable

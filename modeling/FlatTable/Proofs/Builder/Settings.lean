import FlatTable.Proofs.Builder.History
import FlatTable.Proofs.Padding
import FlatTable.Proofs.Result

/-! The arguments of a table hold only what its fields can hold, and a struct's bytes hold its members
where the layout puts them. -/
namespace FlatTable
open Layout

def Setting.Fits (s : Schema) (type : FieldType) : Setting → Prop
  | .scalar v => s.scalarType? type = some v.type
  | .reference p => s.accepts type p.kind
  | .struct values => ∃ d, TableArgs.structOf? s type = some d ∧
      values.map Value.type = d.members.map Member.type

namespace TableArgs
variable {s : Schema} {a a' : TableArgs} {id i : Nat}

/-- Arguments for a table of this schema: one for each field, and what is set can be held by a field
that may still be used. -/
structure Fits (s : Schema) (a : TableArgs) : Prop where
  schema : a.schema = s
  table : ∃ t, s.tables[a.table]? = some t ∧ a.settings.size = t.fields.size
  setting : ∀ i x, a.settings[i]? = some (some x) →
    ∃ f, s.field? a.table i = some f ∧ f.deprecated = false ∧ x.Fits s f.type

/-- What is set fits its field. -/
theorem Fits.exists_field_of_mem (fits : a.Fits s) {t : TableDef} (known : s.tables[a.table]? = some t)
    {x : Setting} (member : (some x, i) ∈ a.settings.toList.zipIdx) :
    ∃ f, t.fields[i]? = some f ∧ x.Fits s f.type := by
  rw [List.mem_zipIdx_iff_getElem?, Array.getElem?_toList] at member
  obtain ⟨f, field, _, holds⟩ := fits.setting i x member
  rw [Schema.field?, known, Option.bind_some] at field
  exact ⟨f, field, holds⟩

theorem new_fits (h : new s id = .ok a) : Fits s a ∧ a.table = id := by
  unfold new at h
  split at h
  · rename_i t found
    cases h
    refine ⟨⟨rfl, ⟨t, found, Array.size_replicate⟩, ?_⟩, rfl⟩
    intro i x set
    simp [Array.getElem?_replicate] at set
  · cases h

private theorem writable_eq_ok {f : FieldDef} (h : a.writable i = .ok f) :
    a.schema.field? a.table i = some f ∧ f.deprecated = false := by
  unfold writable at h
  split at h
  · cases h
  · rename_i t table
    split at h
    · cases h
    · rename_i found field
      split at h
      · cases h
      · rename_i live
        cases h
        exact ⟨by rw [Schema.field?, table, Option.bind_some, field], by simpa using live⟩

def Sets (a : TableArgs) (i : Nat) (x : Setting) (a' : TableArgs) : Prop :=
  ∃ f, a.schema.field? a.table i = some f ∧ f.deprecated = false ∧ x.Fits a.schema f.type ∧
    a' = { a with settings := a.settings.setIfInBounds i (some x) }

theorem Sets.table {x : Setting} (sets : a.Sets i x a') : a'.table = a.table := by
  obtain ⟨_, _, _, _, rfl⟩ := sets
  rfl

theorem Fits.sets {x : Setting} (fits : Fits s a) (sets : a.Sets i x a') : Fits s a' := by
  obtain ⟨f, found, live, here, rfl⟩ := sets
  rw [fits.schema] at found here
  obtain ⟨t, table, size⟩ := fits.table
  refine ⟨fits.schema, ⟨t, table, by rw [Array.size_setIfInBounds, size]⟩, ?_⟩
  intro j y set
  dsimp only at set ⊢
  rw [Array.getElem?_setIfInBounds] at set
  split at set
  · rename_i same
    subst same
    split at set
    · cases set
      exact ⟨f, found, live, here⟩
    · cases set
  · exact fits.setting j y set

theorem sets_of_setScalar {v : Value} (h : a.setScalar i v = .ok a') : a.Sets i (.scalar v) a' := by
  unfold setScalar at h
  obtain ⟨f, writable, h⟩ := bind_eq_ok_iff.mp h
  obtain ⟨field, live⟩ := writable_eq_ok writable
  split at h
  · rename_i type
    cases h
    exact ⟨f, field, live, type, rfl⟩
  · cases h

theorem sets_of_setReference {p : Placed} (h : a.setReference i p = .ok a') :
    a.Sets i (.reference p) a' := by
  unfold setReference at h
  obtain ⟨f, writable, h⟩ := bind_eq_ok_iff.mp h
  obtain ⟨field, live⟩ := writable_eq_ok writable
  split at h
  · rename_i type
    cases h
    exact ⟨f, field, live, type, rfl⟩
  · cases h

private theorem types_of_badMember? {ms : List Member} {vs : List Value}
    (length : vs.length = ms.length) (good : badMember? ms vs = none) :
    vs.map Value.type = ms.map Member.type := by
  induction ms generalizing vs with
  | nil => rw [List.length_eq_zero_iff.mp length, List.map_nil, List.map_nil]
  | cons m ms ih =>
    cases vs with
    | nil => cases length
    | cons v vs =>
      simp only [badMember?] at good
      split at good
      · rename_i same
        rw [List.map_cons, List.map_cons, same, ih (by simpa using length) good]
      · cases good

theorem sets_of_setStruct {values : List Value} (h : a.setStruct i values = .ok a') :
    a.Sets i (.struct values) a' := by
  unfold setStruct at h
  obtain ⟨f, writable, h⟩ := bind_eq_ok_iff.mp h
  obtain ⟨field, live⟩ := writable_eq_ok writable
  split at h
  · cases h
  · rename_i d struct
    obtain ⟨length, h⟩ := refuse_eq_ok_iff.mp h
    split at h
    · cases h
    · rename_i good
      cases h
      exact ⟨f, field, live, ⟨d, struct, types_of_badMember? (not_not.mp length) good⟩, rfl⟩

/-- Whatever is added, the settings fit. -/
theorem addAll_fits (fits : Fits s a) (adds : List Add) :
    Fits s (a.addAll adds) ∧ (a.addAll adds).table = a.table := by
  induction adds generalizing a with
  | nil => exact ⟨fits, rfl⟩
  | cons add adds ih =>
    change Fits s (((add.apply a).toOption.getD a).addAll adds) ∧ _
    have step : Fits s ((add.apply a).toOption.getD a) ∧
        ((add.apply a).toOption.getD a).table = a.table := by
      cases result : add.apply a with
      | error e => exact ⟨fits, rfl⟩
      | ok a' =>
        have set : ∃ i x, a.Sets i x a' := by
          cases add with
          | scalar name v =>
            obtain ⟨i, _, h⟩ := bind_eq_ok_iff.mp result
            exact ⟨i, _, sets_of_setScalar h⟩
          | struct name values =>
            obtain ⟨i, _, h⟩ := bind_eq_ok_iff.mp result
            exact ⟨i, _, sets_of_setStruct h⟩
          | reference name p =>
            obtain ⟨i, _, h⟩ := bind_eq_ok_iff.mp result
            exact ⟨i, _, sets_of_setReference h⟩
        obtain ⟨i, x, sets⟩ := set
        exact ⟨fits.sets sets, sets.table⟩
    obtain ⟨rest, table⟩ := ih step.1
    exact ⟨rest, table.trans step.2⟩

end TableArgs

namespace Builder

private theorem length_structBytesFrom {pos : Nat} {values : List Value} {ms : List Member}
    (types : values.map Value.type = ms.map Member.type) :
    pos + (structBytesFrom pos values).length = StructDef.endFrom pos ms := by
  induction values generalizing pos ms with
  | nil =>
    obtain rfl : ms = [] := List.map_eq_nil_iff.mp types.symm
    rfl
  | cons v values ih =>
    cases ms with
    | nil => cases types
    | cons m ms =>
      obtain ⟨type, rest⟩ := List.cons.inj types
      have width : v.width = m.type.width := by rw [Value.width, type]
      rw [StructDef.endFrom, ← ih rest, structBytesFrom, width]
      simp only [List.length_append, List.length_replicate, v.length_bytes, type]
      omega

/-- A member's bytes stand at its offset. -/
private theorem structBytesFrom_split {pos i o : Nat} {values : List Value} {ms : List Member}
    {v : Value} (types : values.map Value.type = ms.map Member.type) (value : values[i]? = some v)
    (offset : (StructDef.offsetsFrom pos ms)[i]? = some o) :
    ∃ front back, structBytesFrom pos values = front ++ (v.bytes ++ back) ∧
      pos + front.length = o := by
  induction values generalizing pos ms i with
  | nil => cases value
  | cons w values ih =>
    cases ms with
    | nil => cases types
    | cons m ms =>
      obtain ⟨type, rest⟩ := List.cons.inj types
      have width : w.width = m.type.width := by rw [Value.width, type]
      rw [structBytesFrom, width]
      cases i with
      | zero =>
        obtain rfl : w = v := by simpa using value
        simp only [StructDef.offsetsFrom, List.getElem?_cons_zero, Option.some.injEq] at offset
        exact ⟨_, _, List.append_assoc _ _ _, by rw [List.length_replicate, offset]⟩
      | succ i =>
        simp only [StructDef.offsetsFrom, List.getElem?_cons_succ] at value offset
        obtain ⟨front, back, split, length⟩ := ih rest value offset
        refine ⟨List.replicate (padding pos m.type.width) 0 ++ w.bytes ++ front, back, ?_, ?_⟩
        · rw [split]
          simp only [List.append_assoc]
        · simp only [List.length_append, List.length_replicate, w.length_bytes, type]
          omega

def structBytes (d : StructDef) (values : List Value) : List UInt8 :=
  structBytesFrom 0 values ++
    List.replicate (d.size - (structBytesFrom 0 values).length) 0

theorem length_structBytes {d : StructDef} {values : List Value}
    (types : values.map Value.type = d.members.map Member.type) :
    (structBytes d values).length = d.size := by
  have length := @length_structBytesFrom 0 _ _ types
  rw [structBytes, List.length_append, List.length_replicate]
  simp only [StructDef.size]
  omega

theorem structBytes_split {d : StructDef} {values : List Value} {i o : Nat} {v : Value}
    (types : values.map Value.type = d.members.map Member.type) (value : values[i]? = some v)
    (offset : d.offsets[i]? = some o) :
    ∃ front back, structBytes d values = front ++ (v.bytes ++ back) ∧ front.length = o := by
  obtain ⟨front, back, split, length⟩ := structBytesFrom_split types value offset
  exact ⟨front, back ++ _, by rw [structBytes, split]; simp only [List.append_assoc]; rfl,
    by omega⟩

end Builder
end FlatTable

import FlatTable.Proofs.Convert.DraftShown
import FlatTable.Proofs.View.Beside

/-! Tables that hold the same, once as it was asked for and once without the scalars that are the default:
they read alike. -/
namespace FlatTable
open Layout Build Builder

section
variable {s : Schema} {b b' : Builder} {h h' : History}

/-- Tables of two buffers that hold the same, the second one without the scalars that are the default. -/
inductive Thinned (s : Schema) (b : Builder) (h : History) (b' : Builder) (h' : History) :
    TableView → TableView → Nat → Prop where
  | mk {t : TableDraft} {rev rev' : Nat} (sound : t.Sound s) (made : t.Made h rev)
      (made' : (t.stored s false).Made h' rev') :
      Thinned s b h b' h' ⟨b.finished.data, b.positionOf rev⟩ ⟨b'.finished.data, b'.positionOf rev'⟩ t.id

/-- Fields that hold the same read the same. -/
theorem Draft.ReadAs.same {d : Draft} {type : FieldType} {v w : FieldValue} (sound : d.Sound s)
    (reads : d.ReadAs s b h type v) (reads' : (d.stored s false).ReadAs s b' h' type w) :
    v.Same s (Thinned s b h b' h') w := by
  cases reads with
  | scalar v =>
    rw [Draft.stored] at reads'
    cases reads'
    exact .item (.scalar v)
  | struct declared members =>
    rw [Draft.stored] at reads'
    cases reads' with
    | struct declared' members' =>
      exact .struct (FieldType.struct.inj (declared.symm.trans declared')) fun j =>
        (members j).trans (members' j).symm
  | string text =>
    rw [Draft.stored] at reads'
    cases reads'
    exact .item (.string text)
  | scalars length elements =>
    rw [Draft.stored] at reads'
    cases reads' with
    | scalars length' elements' =>
      refine .of_items (by simpa using length) (by simpa using length') elements elements' ?_
      exact List.forall₂_map_left_iff.mpr (List.forall₂_map_right_iff.mpr
        (List.forall₂_same.mpr fun v _ => .scalar v))
  | strings length elements =>
    rw [Draft.stored] at reads'
    cases reads' with
    | strings length' elements' =>
      refine .of_items (by simpa using length) (by simpa using length') elements elements' ?_
      exact List.forall₂_map_left_iff.mpr (List.forall₂_map_right_iff.mpr
        (List.forall₂_same.mpr fun text _ => .string text))
  | @table t rev made =>
    rw [Draft.stored] at reads'
    cases sound with
    | table sound =>
      generalize stored : t.stored s false = t' at reads'
      cases reads' with
      | table made' =>
        subst stored
        rw [TableDraft.id_stored]
        exact .item (.table (.mk sound made made'))
  | @tables items refs v id declared made length elements =>
    rw [Draft.stored, TableDraft.storedEach_eq] at reads'
    cases sound with
    | tables each =>
      cases reads' with
      | @tables _ refs' w id' declared' made' length' elements' =>
        refine .of_items (by simpa using length) (by simpa using length') elements elements' ?_
        rw [List.forall₂_map_left_iff, List.forall₂_map_right_iff, List.forall₂_iff_get]
        rw [List.forall₂_map_right_iff] at made'
        refine ⟨made.length_eq.trans made'.length_eq.symm, fun j inside inside' => ?_⟩
        have known : j < items.length := made.length_eq ▸ inside
        have member := List.getElem_mem known
        have same : id = items[j].id := (declared _ member).symm
        have same' : id' = items[j].id := by
          rw [← @TableDraft.id_stored s false]
          exact (declared' _ (List.mem_map_of_mem member)).symm
        rw [same, same']
        exact .table (.mk (each _ member) (made.get inside known) (made'.get inside' known))

/-- Only scalars that are equal to a default are left out. -/
private theorem Draft.omitted_iff {id i : Nat} {d : Draft} :
    d.omitted s id i ↔
      ∃ v default, d = .scalar v ∧ s.fieldDefault? id i = some default ∧ default.numEq v := by
  cases d with
  | scalar v =>
    rw [Draft.omitted, isDefault]
    cases s.fieldDefault? id i <;> simp
  | struct values | string text | scalars t items | strings texts | table t | tables items =>
    simp [Draft.omitted]

/-- A field that neither table stores reads as its default in both. -/
private theorem same_of_missing (valid : s.Valid) {R : TableView → TableView → Nat → Prop} {t u : TableView}
    {id i : Nat} (here : t.buffer.fieldPosition? t.position i = none)
    (there : u.buffer.fieldPosition? u.position i = none) :
    (t.field s id i).Same s R (u.field s id i) := by
  cases field : s.field? id i with
  | none =>
    simp only [TableView.field, field]
    exact .absent
  | some f =>
    cases live : f.deprecated with
    | true =>
      simp only [TableView.field, field, live, if_true]
      exact .absent
    | false =>
      rw [TableView.field_of_missing valid field live here, TableView.field_of_missing valid field live there]
      cases s.fieldDefault? id i with
      | none => exact .absent
      | some d => exact .item (.scalar d)

variable (valid : s.Valid) (built : b.Built s h) (complete : b.Complete h) (built' : b'.Built s h')
  (complete' : b'.Complete h')
include valid built complete built' complete'

/-- A field of tables that hold the same: stored in both or in neither of them, or a scalar that the second
one leaves out. -/
private theorem thinned_field {t u : TableView} {id : Nat} (thinned : Thinned s b h b' h' t u id) (i : Nat) :
    (t.field s id i).Same s (Thinned s b h b' h') (u.field s id i) ∧ (t.Stores i ↔ u.Stores i) ∨
      ∃ v d, t.Stores i ∧ ¬ u.Stores i ∧ t.field s id i = .scalar v ∧ s.fieldDefault? id i = some d ∧
        d.numEq v ∧ u.field s id i = .scalar d := by
  obtain ⟨sound, made, made'⟩ := thinned
  rename_i t rev rev'
  obtain ⟨id, fields⟩ := t
  obtain ⟨known, ordered, typed, each⟩ := sound
  obtain ⟨object, rfl, set, makes, only⟩ := made
  rename_i a
  obtain ⟨_, _, laid⟩ : ∃ start slots, b.TableLaid rev a start slots := built.laid _ object
  rw [TableDraft.id, TableView.Stores, TableView.Stores]
  by_cases asked : i ∈ fields.map Prod.fst
  · obtain ⟨⟨i, d⟩, member, rfl⟩ := List.mem_map.mp asked
    obtain ⟨f, field, live, hasType⟩ := typed _ member
    obtain ⟨x, isSet⟩ := set _ member
    have holds := makes _ member x isSet
    obtain ⟨_, _, _, _, place⟩ := complete.exists_stored built object field isSet
    dsimp only at *
    cases omitted : d.omitted s a.table i with
    | true =>
      have there := built'.fieldPosition?_of_not_kept (i := i) made' fun d' asked' => by
        have same := List.inj_on_of_nodup_map ordered.nodup member asked' rfl
        rwa [← (Prod.mk.inj same).2]
      obtain ⟨v, default, rfl, declared, equal⟩ := Draft.omitted_iff.mp omitted
      cases holds
      refine .inr ⟨v, default, by rw [place]; rfl, by rw [there]; exact Bool.false_ne_true,
        complete.field_of_scalar built object field live isSet, declared, equal, ?_⟩
      have missing := TableView.field_of_missing (t := ⟨b'.finished.data, b'.positionOf rev'⟩) valid field
        live there
      rwa [declared] at missing
    | false =>
      have reads := readAs_of_made valid built complete holds hasType object field live isSet
      obtain ⟨⟨_, place'⟩, reads'⟩ :=
        complete'.readAs_of_kept made' valid built' member omitted field live hasType
      exact .inl ⟨reads.same (each _ member) reads', by simp [place, place']⟩
  · have here := laid.fieldPosition?_of_unset fun x isSet => asked (only i x isSet)
    have there := built'.fieldPosition?_of_not_kept (i := i) made' fun d member =>
      absurd (List.mem_map_of_mem member) asked
    exact .inl ⟨same_of_missing valid here there, by simp [here, there]⟩

/-- Tables that hold the same read alike. -/
theorem thinned_simulates : s.Simulates (Thinned s b h b' h') := by
  intro t u id thinned i
  rcases thinned_field valid built complete built' complete' thinned i with
    ⟨same, _⟩ | ⟨v, d, _, _, read, default, equal, read'⟩
  · exact .inl same
  · rw [read, read']
    cases format : v.type.format? with
    | none =>
      rw [Value.eq_of_numEq equal format]
      exact .inl (.item (.scalar v))
    | some f => exact .inr ⟨v, d, f, rfl, rfl, default, format, equal⟩

/-- Tables that hold the same store the same, but for the scalars that are left out. -/
theorem thinned_omits : s.OmitsScalars (Thinned s b h b' h') := by
  intro t u id thinned i
  rcases thinned_field valid built complete built' complete' thinned i with
    ⟨_, stored⟩ | ⟨v, d, here, there, read, default, equal, _⟩
  · exact ⟨stored.mpr, fun here there => absurd (stored.mp here) there⟩
  · exact ⟨fun _ => here, fun _ _ => ⟨v, d, read, default, equal⟩⟩

end
end FlatTable

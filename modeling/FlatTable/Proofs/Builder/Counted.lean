import FlatTable.Proofs.Builder.ReadsBack

/-! The rendering of a finished buffer holds as many tables as were created for it. -/
namespace FlatTable
open Layout Build

namespace Builder
variable {s : Schema} {h : History} {b : Builder}

namespace Built
variable (built : b.Built s h) (valid : s.Valid) (typed : h.Typed s) (c : Tally) {rev : Nat}
  {a : TableArgs}
include built valid typed

/-- A field is rendered with all the tables that it was set to. -/
private theorem le_tablesIn_field {i : Nat} {f : FieldDef} (known : ⟨rev, .table a⟩ ∈ h)
    (field : s.field? a.table i = some f)
    (below : ∀ r a', ⟨r, .table a'⟩ ∈ h → r < rev → h.tally c r ≤ s.tablesIn c (.table a'.table)
      (s.tableJson ⟨b.finished.data, b.positionOf r⟩ a'.table)) :
    c.all ((h.tablesOf a.settings[i]?.join).map (h.tally c)) ≤
      ((s.memberJson? s.tableJson ⟨b.finished.data, b.positionOf rev⟩ a.table (f, i)).map
        fun m => s.tablesIn c ((s.typeOf? a.table m.1).getD .string) m.2).getD 0 := by
  cases set : a.settings[i]?.join with
  | none => exact Nat.zero_le _
  | some x =>
    have set := Option.join_eq_some_iff.mp set
    obtain ⟨f', field', live, _⟩ := (built.fits _ known a rfl).setting i x set
    obtain rfl : f = f' := Option.some.inj (field.symm.trans field')
    cases x with
    | scalar v | struct values => exact Nat.zero_le _
    | reference p =>
      obtain ⟨content, object, _, before⟩ := built.grounded.reference known set
      have found := built.grounded.content?_eq_some_iff.mpr object
      have reads := built.readsBack field live valid known
      have called {id r : Nat} (tables : f.type.tables? = some id)
          (found : r ∈ h.tablesOf (some (.reference p))) : h.tableAt? r = some id :=
        typed.tableAt?_eq known field set tables found
      simp only [History.tablesOf, found] at called ⊢
      have rendered {value : FieldValue} (present : value ≠ .absent)
          (read : TableView.field ⟨b.finished.data, b.positionOf rev⟩ s a.table i = value) :
          s.memberJson? s.tableJson ⟨b.finished.data, b.positionOf rev⟩ a.table (f, i) =
            some (f.name, s.valueJson s.tableJson (Schema.enumOf? f.type) value) :=
        Schema.memberJson?_eq_some_iff.mpr ⟨by rwa [read], by rw [read]⟩
      cases content with
      | string text | scalars t items | strings items => exact Nat.zero_le _
      | table a' =>
        obtain ⟨id, declared, read⟩ := reads.of_object set found
        obtain rfl : a'.table = id := by
          simpa [History.tableAt?, found] using called (by rw [declared]; rfl) List.mem_cons_self
        rw [rendered (by simp) read, Option.map_some, Option.getD_some,
          Schema.typeOf?_name valid field, Option.getD_some, declared, List.map_cons,
          List.map_nil, Tally.all_cons, Tally.all_nil, c.comm, c.zero_join]
        exact below _ _ object before
      | tables items =>
        obtain ⟨v, id, read, declared, -, elements⟩ := reads.of_object set found
        rw [rendered (by simp) read, Option.map_some, Option.getD_some,
          Schema.typeOf?_name valid field, Option.getD_some, declared, Schema.valueJson, elements,
          Schema.tablesIn, Schema.tablesInItems_eq, List.map_map, List.map_map, List.map_map]
        apply c.all_map_le
        intro r member
        obtain ⟨a', isTable, earlier⟩ := built.grounded.table object member
        have asked := called (by rw [declared]; rfl) (List.mem_map_of_mem member)
        obtain ⟨a'', isTable', rfl⟩ := built.grounded.tableAt?_eq_some_iff.mp asked
        exact below _ _ isTable' (Nat.lt_trans earlier before)

/-- No table is missing from the rendering of a table, and none is twice in it. -/
theorem tablesIn_tableJson (known : ⟨rev, .table a⟩ ∈ h) :
    s.tablesIn c (.table a.table) (s.tableJson ⟨b.finished.data, b.positionOf rev⟩ a.table) =
      h.tally c rev := by
  apply Nat.le_antisymm
  · rw [← built.tally_eq c typed known]
    exact Schema.tablesIn_tableJsonWithin_le valid c _ ⟨b.finished.data, b.positionOf rev⟩ a.table
  · induction rev using Nat.strongRecOn generalizing a with
    | ind rev ih =>
      obtain ⟨d, found, size⟩ := (built.fits _ known a rfl).table
      obtain ⟨members, object, perm, _⟩ := Schema.membersJson_perm valid s.tableJson
        ⟨b.finished.data, b.positionOf rev⟩ found
      have numbered : (d.fields.toList.zipIdx.flatMap fun e => h.tablesOf a.settings[e.2]?.join) =
          a.settings.toList.flatMap h.tablesOf := by
        apply flatMap_zipIdx_eq (by simpa using size.symm)
        intro i f x _ set
        rw [Array.getElem?_toList] at set
        simp [set]
      rw [built.grounded.tally_eq c known, ← numbered, Schema.tableJson_eq, object, Schema.tablesIn,
        Schema.tablesInMembers_eq, c.all_perm (perm.map _), List.map_flatMap, Tally.all_flatMap]
      refine Nat.add_le_add_left (c.all_le_filterMap ?_) 1
      intro e member
      obtain ⟨f, i⟩ := e
      exact built.le_tablesIn_field valid typed c known
        ((Schema.mem_zipIdx_fields found).mp member) fun r a' isTable before =>
        ih r before isTable

end Built
end Builder
end FlatTable

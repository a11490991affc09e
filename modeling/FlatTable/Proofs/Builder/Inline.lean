import FlatTable.Proofs.Builder.Stored

/-! Where the fields of a table come to lie, told by their widths and alignments alone. -/
namespace FlatTable
open Layout Build

namespace TableArgs

def endAfter (a : TableArgs) (entry : Option Setting × Nat) (used : Nat) : Nat :=
  match entry.1, a.schema.field? a.table entry.2 with
  | some _, some f => usedAfter used (a.schema.inlineWidth f.type) (a.schema.inlineAlignment f.type)
  | _, _ => used

/-- How many bytes are used when the fields from number `i` on have been written in front of `start` bytes,
the last field first. -/
def fieldEnd (a : TableArgs) (start i : Nat) : Nat :=
  (a.settings.toList.zipIdx.drop i).foldr a.endAfter start

def objectEnd (a : TableArgs) (start : Nat) : Nat :=
  usedAfter (a.fieldEnd start 0) offsetSize offsetSize

def inlineSize (a : TableArgs) (start : Nat) : Nat := a.objectEnd start - start

def Whole (a : TableArgs) (forced : Bool) : Prop :=
  ∀ (i : Nat) x, a.settings[i]? = some (some x) → forced = false → ¬ Builder.Omitted a i x

theorem stored_whole (a : TableArgs) (forced : Bool) : (a.stored forced).Whole forced := by
  intro i x set unforced omitted
  apply (stored_eq_some_iff.mp set).2 unforced
  rwa [Builder.Omitted, stored_schema, stored_table] at omitted

end TableArgs

namespace Builder
variable {b : Builder} {a : TableArgs} {start : Nat}

/-- A table is created from what is stored of its arguments. -/
theorem runFrom_createTable_stored {s : Schema} (filled : s.Filled) (fits : a.Fits s) (sound : b.Sound) :
    runFrom b (createTable (a.stored b.forceDefaults)) = runFrom b (createTable a) := by
  cases forced : b.forceDefaults with
  | true => rfl
  | false => exact runFrom_createTable_sparse filled fits sound forced

private theorem drop_zipIdx {settings : List (Option Setting)} {rest done : List (Option Setting × Nat)}
    {x : Option Setting} {i : Nat} (all : rest ++ (x, i) :: done = settings.zipIdx) :
    settings.zipIdx.drop i = (x, i) :: done := by
  have found : settings.zipIdx[rest.length]? = some (x, i) := by rw [← all]; simp
  rw [List.getElem?_zipIdx, Option.map_eq_some_iff] at found
  obtain ⟨_, _, same⟩ := found
  obtain ⟨_, rfl⟩ := Prod.mk.inj same
  rw [← all, Nat.zero_add, List.drop_left]

/-- Fields are written from the last to the first, so those done are the ones that follow. -/
private theorem pushSettings_ends {s : Schema} (filled : s.Filled) (fits : a.Fits s) {t : TableDef}
    (table : s.tables[a.table]? = some t) {forced : Bool} (whole : a.Whole forced)
    (rest : List (Option Setting × Nat)) :
    ∀ {b : Builder} {done : List (Option Setting × Nat)} {written : List (Nat × Nat)},
      rest.reverse ++ done = a.settings.toList.zipIdx → b.Sound → b.forceDefaults = forced →
      b.used.bytes.length = done.foldr a.endAfter start →
      (∀ w ∈ written, w.2 = a.fieldEnd start w.1) →
      (pushSettings a t rest written).Does b fun written' b' =>
        b'.used.bytes.length = a.fieldEnd start 0 ∧ ∀ w ∈ written', w.2 = a.fieldEnd start w.1 := by
  induction rest with
  | nil =>
    intro b done written all sound _ used ends
    obtain rfl : done = _ := all
    exact Does.of_pure ⟨used, ends⟩
  | cons next rest ih =>
    intro b done written all sound isForced used ends
    obtain ⟨setting, i⟩ := next
    rw [List.reverse_cons, List.append_assoc, List.singleton_append] at all
    have here := drop_zipIdx all
    have member : (setting, i) ∈ a.settings.toList.zipIdx := by rw [← all]; simp
    rw [List.mem_zipIdx_iff_getElem?, Array.getElem?_toList] at member
    cases setting with
    | none => exact ih all sound isForced used ends
    | some x =>
      obtain ⟨f, field, _, holds⟩ := fits.setting i x member
      have field' : t.fields[i]? = some f := by
        rwa [Schema.field?, table, Option.bind_some] at field
      unfold pushSettings
      apply Does.bind (pushSetting_does filled fits.schema sound field' holds (Nat.le_refl _))
        (fun _ _ h => h.1)
      intro stored b₁ given
      obtain ⟨⟨front, grown⟩, _, laid, omitted⟩ := given
      have isForced₁ : b₁.forceDefaults = forced := grown.forceDefaults.trans isForced
      cases stored with
      | false =>
        obtain ⟨unforced, left⟩ := omitted rfl
        exact absurd left (whole i x member (isForced.symm.trans unforced))
      | true =>
        obtain ⟨_, longer, _⟩ := laid rfl
        have used₁ : b₁.used.bytes.length = ((some x, i) :: done).foldr a.endAfter start := by
          rw [List.foldr_cons, ← used, longer, TableArgs.endAfter, fits.schema, field]
        refine Does.get_bind (ih all (grown.sound sound) isForced₁ used₁ ?_)
        refine List.forall_mem_cons.mpr ⟨?_, ends⟩
        rw [TableArgs.fieldEnd, here, b₁.used.size_eq, used₁]

/-- Fields end where their widths and alignments tell. -/
theorem pushAll_ends {s : Schema} (filled : s.Filled) (fits : a.Fits s) {t : TableDef}
    (table : s.tables[a.table]? = some t) (sound : b.Sound) (whole : a.Whole b.forceDefaults) :
    (pushSettings a t a.settings.toList.zipIdx.reverse []).Does b fun written b' =>
      b'.used.bytes.length = a.fieldEnd b.used.bytes.length 0 ∧
        ∀ w ∈ written, w.2 = a.fieldEnd b.used.bytes.length w.1 := by
  have all : a.settings.toList.zipIdx.reverse.reverse ++ [] = a.settings.toList.zipIdx := by
    rw [List.reverse_reverse, List.append_nil]
  exact pushSettings_ends filled fits table whole _ all sound rfl rfl (List.forall_mem_nil _)

/-- Where nothing is left out every field that is set is written. -/
theorem FieldsLaid.exists_written {forced : Bool} {written : List (Nat × Nat)}
    (laid : b.FieldsLaid a start forced a.settings.toList.zipIdx written) (whole : a.Whole forced)
    {i : Nat} {x : Setting} (set : a.settings[i]? = some (some x)) : ∃ rev, (i, rev) ∈ written := by
  have member : (some x, i) ∈ a.settings.toList.zipIdx := by
    rw [List.mem_zipIdx_iff_getElem?, Array.getElem?_toList, set]
  exact (laid.all x i member).resolve_right fun left => whole i x set left.1 left.2

end Builder
end FlatTable

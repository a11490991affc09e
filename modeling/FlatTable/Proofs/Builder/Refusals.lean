import FlatTable.Proofs.Builder.Failing
import FlatTable.Proofs.Builder.Inline

/-! Why a table is not created: something that it refers to has not been placed, it is too large or has too
many fields, or there is no room. Nothing else is found wrong with arguments that fit. -/
namespace FlatTable
open Layout Build

/-- Why a table is not created by a builder from these arguments, of which nothing would be left out. -/
inductive TableArgs.Refused (a : TableArgs) (b : Builder) : BuildError → Prop
  | unplaced {i : Nat} {p : Placed} (set : a.settings[i]? = some (some (.reference p)))
      (missing : p ∉ b.placed) : Refused a b (.unplacedOffset p.rev)
  | tooLarge {t : TableDef} (known : a.schema.tables[a.table]? = some t)
      (large : maxInline < a.inlineSize b.used.bytes.length) :
      Refused a b (.tableTooLarge t.name (a.inlineSize b.used.bytes.length))
  | tooMany {t : TableDef} {i : Nat} {x : Setting} (known : a.schema.tables[a.table]? = some t)
      (small : a.inlineSize b.used.bytes.length ≤ maxInline) (set : a.settings[i]? = some (some x))
      (many : maxFields ≤ i) (last : ∀ (j : Nat) y, a.settings[j]? = some (some y) → j ≤ i) :
      Refused a b (.tooManyFields t.name (i + 1))
  | full {e : BuildError} (full : e.IsFull) : Refused a b e

namespace Builder
variable {b : Builder} {a : TableArgs} {s : Schema}

/-! ### The fields -/

theorem checkSettings_fails {P : BuildError → Prop} {settings : List (Option Setting)}
    (unplaced : ∀ p, some (.reference p) ∈ settings → ¬ p.isAmong b.placed → P (.unplacedOffset p.rev)) :
    FailsWith P (settings.forM checkSetting) b := by
  induction settings with
  | nil => exact .of_pure _
  | cons x settings ih =>
    have rest := ih fun p member => unplaced p (List.mem_cons_of_mem _ member)
    have pass : FailsWith P (settings.forM checkSetting) b →
        FailsWith P (pure () >>= fun _ => settings.forM checkSetting) b := fun h => h
    rw [List.forM_eq_forM, List.forM_cons]
    cases x with
    | none => exact pass rest
    | some x =>
      cases x with
      | scalar v | struct values => exact pass rest
      | reference p =>
        have first := checkPlaced_fails (unplaced p List.mem_cons_self)
        refine first.bind_does (checkPlaced_does p) fun _ _ same => ?_
        rw [same.1]
        exact rest

theorem pushSetting_fails {P : BuildError → Prop} (full : ∀ e, BuildError.IsFull e → P e) {t : TableDef}
    {i : Nat} {f : FieldDef} {x : Setting} (field : t.fields[i]? = some f) (fits : x.Fits a.schema f.type)
    (reference : ∀ p, x = .reference p → FailsWith P (pushReference p.rev) b) :
    FailsWith P (pushSetting a t i x) b := by
  unfold pushSetting
  cases x with
  | scalar v =>
    apply FailsWith.get_bind
    split
    · exact .of_pure _
    · exact FailsWith.bind ((store_fails _ _ _).mono full) fun _ _ _ => .of_pure _
  | reference p => exact (reference p rfl).bind fun _ _ _ => .of_pure _
  | struct values =>
    obtain ⟨d, struct, _⟩ := fits
    dsimp only
    rw [field, Option.bind_some, struct]
    exact FailsWith.bind ((store_fails _ _ _).mono full) fun _ _ _ => .of_pure _

private theorem pushSettings_fails (filled : s.Filled) (schema : a.schema = s) {t : TableDef}
    {entries : List (Option Setting × Nat)}
    (fits : ∀ x i, (some x, i) ∈ entries → ∃ f, t.fields[i]? = some f ∧ x.Fits s f.type) :
    ∀ (written : List (Nat × Nat)) (b : Builder), b.Sound →
      (∀ p i, (some (.reference p), i) ∈ entries → b.Behind p.rev) →
        FailsWith BuildError.IsFull (pushSettings a t entries written) b := by
  induction entries with
  | nil => exact fun _ _ _ _ => .of_pure _
  | cons entry rest ih =>
    intro written b sound behind
    obtain ⟨x, i⟩ := entry
    have ih := ih fun x i member => fits x i (List.mem_cons_of_mem _ member)
    have later (p : Placed) (i : Nat) (member : (some (.reference p), i) ∈ rest) :=
      behind p i (List.mem_cons_of_mem _ member)
    cases x with
    | none => exact ih written b sound later
    | some x =>
      obtain ⟨f, field, holds⟩ := fits x i List.mem_cons_self
      have here (p : Placed) (same : x = .reference p) : b.Behind p.rev :=
        behind p i (by rw [same]; exact List.mem_cons_self)
      unfold pushSettings
      have first := pushSetting_fails (fun _ => id) field (schema ▸ holds) fun p same =>
        pushReference_fails (here p same)
      refine first.bind_does
        (pushSetting_does filled schema sound field holds (Nat.le_refl _)) fun stored b₁ given => ?_
      obtain ⟨⟨front, grown⟩, _⟩ := given
      have later₁ (p : Placed) (i : Nat) (member : (some (.reference p), i) ∈ rest) :=
        (later p i member).kept grown.keeps
      cases stored with
      | true => exact FailsWith.get_bind (ih _ b₁ (grown.sound sound) later₁)
      | false => exact ih _ b₁ (grown.sound sound) later₁

/-! ### The vtable -/

/-- The entries of a vtable are zero, or lead to fields that were written. -/
private theorem mem_slotsFrom {object next d : Nat} {written : List (Nat × Nat)}
    (member : d ∈ slotsFrom object next written) :
    d = 0 ∨ ∃ w ∈ written, d = object - w.2 := by
  induction written generalizing next with
  | nil => cases member
  | cons w written ih =>
    rcases List.mem_append.mp member with zeros | rest
    · exact .inl (List.eq_of_mem_replicate zeros)
    · rcases List.mem_cons.mp rest with rfl | later
      · exact .inr ⟨w, List.mem_cons_self, rfl⟩
      · obtain zero | ⟨w', found, same⟩ := ih later
        · exact .inl zero
        · exact .inr ⟨w', List.mem_cons_of_mem _ found, same⟩

/-- There are as many entries as the last field that was written asks for. -/
private theorem length_slotsFrom (object : Nat) {next : Nat} {written : List (Nat × Nat)}
    (sorted : (written.map Prod.fst).Pairwise (· < ·)) (atLeast : ∀ w ∈ written, next ≤ w.1) :
    written = [] ∨ ∃ w ∈ written, (∀ v ∈ written, v.1 ≤ w.1) ∧
      next + (slotsFrom object next written).length = w.1 + 1 := by
  induction written generalizing next with
  | nil => exact .inl rfl
  | cons w written ih =>
    obtain ⟨first, sorted⟩ := List.pairwise_cons.mp sorted
    have first (v : Nat × Nat) (later : v ∈ written) : w.1 < v.1 :=
      first v.1 (List.mem_map.mpr ⟨v, later, rfl⟩)
    have least := atLeast w List.mem_cons_self
    right
    simp only [slotsFrom, List.length_append, List.length_replicate, List.length_cons]
    rcases @ih (w.1 + 1) sorted first with rfl | ⟨last, found, greatest, length⟩
    · exact ⟨w, List.mem_cons_self, by simp, by simp only [slotsFrom, List.length_nil]; omega⟩
    · refine ⟨last, List.mem_cons_of_mem _ found, List.forall_mem_cons.mpr ⟨?_, greatest⟩, by omega⟩
      exact Nat.le_of_lt (first last found)

private theorem slotOutside?_eq_none {size i : Nat} {slots : List Nat}
    (inside : ∀ d ∈ slots, d = 0 ∨ (offsetSize ≤ d ∧ d < size)) :
    Contract.slotOutside? size i slots = none := by
  induction slots generalizing i with
  | nil => rfl
  | cons d slots ih =>
    obtain ⟨first, rest⟩ := List.forall_mem_cons.mp inside
    rw [Contract.slotOutside?, if_pos first, ih rest]

private theorem checkVtable_eq_ok {size : Nat} {slots : List Nat} (large : offsetSize ≤ size)
    (inside : ∀ d ∈ slots, d = 0 ∨ (offsetSize ≤ d ∧ d < size)) :
    Contract.checkVtable ((vtableHeader + slots.length * slotSize) :: size :: slots) = .ok () := by
  have whole : vtableHeader + slots.length * slotSize = (slots.length + 2) * slotSize := by
    simp only [vtableHeader, slotSize]
    omega
  rw [Contract.checkVtable, if_neg (not_not.mpr whole), if_neg (by omega),
    slotOutside?_eq_none inside]

/-- The fields of a table lie within it. -/
theorem FieldsLaid.between {start : Nat} {forced : Bool} {settings : List (Option Setting × Nat)}
    {written : List (Nat × Nat)} (laid : b.FieldsLaid a start forced settings written) :
    ∀ w ∈ written, start < w.2 ∧ w.2 ≤ b.used.bytes.length := by
  intro w found
  obtain ⟨_, f, _, _, _, fieldLaid, _⟩ := laid.laid w.1 w.2 found
  have inside := fieldLaid.inside
  have nonempty := fieldLaid.nonempty
  exact ⟨by omega, fieldLaid.held.le⟩

/-- The vtable of a table whose fields lie within it breaks no contract. -/
theorem checkVtable_written {object start : Nat} {written : List (Nat × Nat)}
    (large : start + offsetSize ≤ object)
    (between : ∀ w ∈ written, start < w.2 ∧ w.2 + offsetSize ≤ object) :
    Contract.checkVtable ((vtableHeader + (slotsFrom object 0 written).length * slotSize) ::
      (object - start) :: slotsFrom object 0 written) = .ok () := by
  refine checkVtable_eq_ok (by omega) fun d member => ?_
  rcases mem_slotsFrom member with zero | ⟨w, found, rfl⟩
  · exact .inl zero
  · have := between w found
    right
    omega

/-- Where nothing is left out there are as many entries as the last field that is set asks for. -/
theorem FieldsLaid.length_slotsFrom {start : Nat} {forced : Bool} {written : List (Nat × Nat)}
    (laid : b.FieldsLaid a start forced a.settings.toList.zipIdx written) (whole : a.Whole forced)
    (object : Nat) : written = [] ∨ ∃ i x, a.settings[i]? = some (some x) ∧
      (∀ (j : Nat) y, a.settings[j]? = some (some y) → j ≤ i) ∧
        (slotsFrom object 0 written).length = i + 1 := by
  rcases Builder.length_slotsFrom object laid.sorted fun _ _ => Nat.zero_le _ with
    none | ⟨⟨i, rev⟩, found, greatest, length⟩
  · exact .inl none
  · obtain ⟨x, _, set, _⟩ := laid.exists_setting found
    refine .inr ⟨i, x, set, fun j y set' => ?_, by omega⟩
    obtain ⟨rev', found'⟩ := laid.exists_written whole set'
    exact greatest _ found'

/-- A vtable is too large only if a field was written whose number is. -/
private theorem exists_last {object start : Nat} {forced : Bool} {written : List (Nat × Nat)}
    (laid : b.FieldsLaid a start forced a.settings.toList.zipIdx written) (whole : a.Whole forced)
    (many : maxInline < vtableHeader + (slotsFrom object 0 written).length * slotSize) :
    ∃ i x, a.settings[i]? = some (some x) ∧ maxFields ≤ i ∧
      (∀ (j : Nat) y, a.settings[j]? = some (some y) → j ≤ i) ∧
        (slotsFrom object 0 written).length = i + 1 := by
  have large : maxFields < (slotsFrom object 0 written).length := by
    simp only [maxFields, maxInline, vtableHeader, slotSize] at many ⊢
    omega
  rcases laid.length_slotsFrom whole object with rfl | ⟨i, x, set, last, length⟩
  · exact absurd large (Nat.not_lt_zero _)
  · exact ⟨i, x, set, by omega, last, length⟩

/-! ### The table -/

private theorem createTable_fails (filled : s.Filled) (fits : a.Fits s) (sound : b.Sound)
    (behind : ∀ (i : Nat) p, a.settings[i]? = some (some (.reference p)) → p ∈ b.placed →
      b.Behind p.rev) (whole : a.Whole b.forceDefaults) :
    FailsWith (a.Refused b) (createTable a) b := by
  obtain ⟨t, known, _⟩ := fits.table
  have known' : a.schema.tables[a.table]? = some t := by rw [fits.schema, known]
  have index {p : Placed} (member : some (.reference p) ∈ a.settings.toList) :
      ∃ i : Nat, a.settings[i]? = some (some (.reference p)) := by
    obtain ⟨i, found⟩ := List.mem_iff_getElem?.mp member
    exact ⟨i, by rw [← Array.getElem?_toList, found]⟩
  have fitting (x : Setting) (i : Nat) (member : (some x, i) ∈ a.settings.toList.zipIdx.reverse) :=
    fits.exists_field_of_mem known (List.mem_reverse.mp member)
  have full {α : Type} {steps : Build α} {b' : Builder} (fails : FailsWith BuildError.IsFull steps b') :
      FailsWith (a.Refused b) steps b' := fails.mono fun _ => .full
  unfold createTable
  rw [known']
  dsimp only
  have checks : FailsWith (a.Refused b) (a.settings.toList.forM checkSetting) b :=
    checkSettings_fails fun p member missing => (index member).elim fun _ set =>
      .unplaced set fun placed => missing ((Placed.isAmong_iff_mem sound.listed.ordered).mpr placed)
  refine checks.bind_does (checkSettings_does _) fun _ b₀ given => ?_
  obtain ⟨rfl, placed⟩ := given
  apply FailsWith.get_bind
  have pushes := pushSettings_fails filled fits.schema fitting [] b₀ sound fun p i member => by
    rw [List.mem_reverse, List.mem_zipIdx_iff_getElem?, Array.getElem?_toList] at member
    exact behind i p member (placed p (Array.mem_toList_iff.mpr (Array.mem_of_getElem? member)))
  refine (full pushes).bind_does ((pushAll_does filled fits known sound).and
    (pushAll_ends filled fits known sound whole)) fun written b₁ given => ?_
  obtain ⟨⟨⟨front, grown⟩, _, laid⟩, used, _⟩ := given
  refine (full (align_fails _ _)).bind_does (align_does (by decide)) fun _ b₂ given => ?_
  obtain ⟨aligned, _, _⟩ := given
  refine (full (reserve_fails _)).bind_does (reserve_does offsetSize) fun _ b₃ given => ?_
  obtain ⟨old, length, reserved, _⟩ := given
  apply FailsWith.get_bind
  have longer : b₃.used.bytes.length = offsetSize + b₂.used.bytes.length := by
    rw [reserved.length, length]
  have object : b₃.used.bytes.length = a.objectEnd b₀.used.bytes.length := by
    rw [longer, aligned.length, List.length_replicate, used, TableArgs.objectEnd, usedAfter]
    omega
  have inFront (w : Nat × Nat) (found : w ∈ written) :
      b₀.used.bytes.length < w.2 ∧ w.2 + offsetSize ≤ b₃.used.bytes.length := by
    have between := laid.between w found
    rw [longer, aligned.length]
    omega
  rw [b₀.used.size_eq, b₃.used.size_eq]
  split
  · rename_i large
    rw [object] at large ⊢
    exact FailsWith.throw_bind (.tooLarge known' large)
  rename_i small
  split
  · rename_i many
    obtain ⟨i, x, set, large, last, slots⟩ := exists_last laid whole many
    rw [slots]
    rw [object] at small
    exact FailsWith.throw_bind (.tooMany known' (Nat.le_of_not_lt small) set large last)
  refine FailsWith.bind (pushVtable_fails (fun _ => .full) fun v broken => ?_) fun _ _ _ =>
    (FailsWith.of_modify _).bind fun _ _ _ => .of_pure _
  rw [checkVtable_written (by rw [longer, aligned.length, grown.length]; omega) inFront] at broken
  cases broken

/-- Creating a table fails only for a reason that lies in what is to be stored, or for want of room. -/
theorem createTable_refused (filled : s.Filled) (fits : a.Fits s) (sound : b.Sound)
    (behind : ∀ (i : Nat) p, a.settings[i]? = some (some (.reference p)) → p ∈ b.placed →
      b.Behind p.rev) : FailsWith ((a.stored b.forceDefaults).Refused b) (createTable a) b := by
  have fails := createTable_fails filled (fits.stored b.forceDefaults) sound
    (fun i p set => behind i p (TableArgs.stored_eq_some_iff.mp set).1) (a.stored_whole _)
  rwa [FailsWith, runFrom_createTable_stored filled fits sound] at fails

end Builder
end FlatTable

import FlatTable.Proofs.Builder.Objects
import FlatTable.Proofs.Builder.Settings
import FlatTable.Proofs.Schema.Valid

/-! Tables as they are laid out: the fields that were written, behind a distance to the vtable, which
lies directly in front and has an entry for each. -/
namespace FlatTable
open Layout Build

namespace Setting
variable {s : Schema} {type : FieldType} {x : Setting}

def bytes (s : Schema) (type : FieldType) (rev : Nat) : Setting → List UInt8
  | .scalar v => v.bytes
  | .reference p => Bytes.encode offsetSize (rev - p.rev)
  | .struct values =>
    match TableArgs.structOf? s type with
    | some d => Builder.structBytes d values
    | none => []

theorem inlineWidth_of_scalar {t : ScalarType} (h : s.scalarType? type = some t) :
    s.inlineWidth type = t.width ∧ s.inlineAlignment type = t.width := by
  cases type <;> simp_all [Schema.scalarType?, Schema.inlineWidth, Schema.inlineAlignment]

theorem inlineWidth_of_accepts {kind : ObjectKind} (h : s.accepts type kind) :
    s.inlineWidth type = offsetSize ∧ s.inlineAlignment type = offsetSize := by
  cases type with
  | scalar t | enum id | struct id => cases kind <;> simp [Schema.accepts] at h
  | string | vector e | table id => exact ⟨rfl, rfl⟩

theorem inlineWidth_of_structOf? {d : StructDef} (h : TableArgs.structOf? s type = some d) :
    s.inlineWidth type = d.size ∧ s.inlineAlignment type = d.alignment := by
  cases type with
  | struct id =>
    have found : s.structs[id]? = some d := h
    simp [Schema.inlineWidth, Schema.inlineAlignment, found]
  | scalar t | enum id | string | vector e | table id => cases h

theorem length_bytes (fits : x.Fits s type) (rev : Nat) :
    (x.bytes s type rev).length = s.inlineWidth type := by
  cases x with
  | scalar v => rw [(inlineWidth_of_scalar fits).1]; exact v.length_bytes
  | reference p => rw [(inlineWidth_of_accepts fits).1]; exact Bytes.length_encode _ _
  | struct values =>
    obtain ⟨d, struct, types⟩ := fits
    rw [(inlineWidth_of_structOf? struct).1, bytes, struct]
    exact Builder.length_structBytes types

theorem inlineAlignment_dvd_eight (fits : x.Fits s type) : s.inlineAlignment type ∣ 8 := by
  cases x with
  | scalar v => rw [(inlineWidth_of_scalar fits).2]; exact v.type.width_dvd_eight
  | reference p => rw [(inlineWidth_of_accepts fits).2]; decide
  | struct values =>
    obtain ⟨d, struct, _⟩ := fits
    rw [(inlineWidth_of_structOf? struct).2]
    exact d.alignment_dvd_eight

theorem inlineWidth_pos (filled : s.Filled) (fits : x.Fits s type) : 0 < s.inlineWidth type := by
  cases x with
  | scalar v => rw [(inlineWidth_of_scalar fits).1]; exact v.type.width_pos
  | reference p => rw [(inlineWidth_of_accepts fits).1]; decide
  | struct values =>
    obtain ⟨d, struct, _⟩ := fits
    rw [(inlineWidth_of_structOf? struct).1]
    cases type with
    | struct id =>
      have found : s.structs[id]? = some d := struct
      exact StructDef.size_pos (filled d (Array.mem_toList_iff.mpr (Array.mem_of_getElem? found)))
    | scalar t | enum id | string | vector e | table id => cases struct

/-- A field by itself needs no padding. -/
theorem inlineAlignment_dvd_inlineWidth (fits : x.Fits s type) :
    s.inlineAlignment type ∣ s.inlineWidth type := by
  cases x with
  | scalar v =>
    obtain ⟨width, alignment⟩ := inlineWidth_of_scalar fits
    rw [width, alignment]
  | reference p =>
    obtain ⟨width, alignment⟩ := inlineWidth_of_accepts fits
    rw [width, alignment]
  | struct values =>
    obtain ⟨d, struct, _⟩ := fits
    obtain ⟨width, alignment⟩ := inlineWidth_of_structOf? struct
    rw [width, alignment]
    exact d.alignment_dvd_size

end Setting

namespace Builder
variable {b b' : Builder} {a : TableArgs} {start : Nat}

structure FieldLaid (b : Builder) (s : Schema) (type : FieldType) (start rev : Nat) (x : Setting) :
    Prop where
  aligned : s.inlineAlignment type ∣ rev
  minAlign : s.inlineAlignment type ≤ b.minAlign
  inside : start + s.inlineWidth type ≤ rev
  nonempty : 0 < s.inlineWidth type
  held : b.Held rev (x.bytes s type rev)
  reference : ∀ p, x = .reference p → 0 < p.rev ∧ p.rev + offsetSize ≤ rev

theorem FieldLaid.kept {s : Schema} {type : FieldType} {rev : Nat} {x : Setting}
    (h : b.FieldLaid s type start rev x) (fits : x.Fits s type) (keeps : b.Keeps b') :
    b'.FieldLaid s type start rev x where
  aligned := h.aligned
  minAlign := Nat.le_trans h.minAlign keeps.minAlign
  inside := h.inside
  nonempty := h.nonempty
  held := h.held.kept (by rw [Setting.length_bytes fits]; exact h.nonempty) keeps
  reference := h.reference

def Omitted (a : TableArgs) (i : Nat) (x : Setting) : Prop :=
  ∃ v, x = .scalar v ∧ isDefault a.schema a.table i v

/-- The fields of a table written so far, by ascending number. Defaults are among them only if they
are forced. -/
structure FieldsLaid (b : Builder) (a : TableArgs) (start : Nat) (forced : Bool)
    (settings : List (Option Setting × Nat)) (written : List (Nat × Nat)) : Prop where
  sorted : (written.map Prod.fst).Pairwise (· < ·)
  apart : written.Pairwise fun w later => ∀ f, a.schema.field? a.table w.1 = some f →
    later.2 + a.schema.inlineWidth f.type ≤ w.2
  laid : ∀ i rev, (i, rev) ∈ written → ∃ x f, (some x, i) ∈ settings ∧
    a.schema.field? a.table i = some f ∧ x.Fits a.schema f.type ∧
      b.FieldLaid a.schema f.type start rev x ∧ (forced = false → ¬ Omitted a i x)
  all : ∀ x i, (some x, i) ∈ settings →
    (∃ rev, (i, rev) ∈ written) ∨ (forced = false ∧ Omitted a i x)

theorem FieldsLaid.kept {forced : Bool} {settings : List (Option Setting × Nat)}
    {written : List (Nat × Nat)} (h : b.FieldsLaid a start forced settings written)
    (keeps : b.Keeps b') : b'.FieldsLaid a start forced settings written := by
  refine ⟨h.sorted, h.apart, ?_, h.all⟩
  intro i rev member
  obtain ⟨x, f, setting, field, fits, laid, sparse⟩ := h.laid i rev member
  exact ⟨x, f, setting, field, fits, laid.kept fits keeps, sparse⟩

/-- What writing a setting does: the field is stored, or it is a default and nothing changes. -/
theorem pushSetting_does {s : Schema} (filled : s.Filled) (schema : a.schema = s)
    (sound : b.Sound) {t : TableDef} {i : Nat} {f : FieldDef} {x : Setting}
    (field : t.fields[i]? = some f) (fits : x.Fits s f.type)
    (room : start ≤ b.used.bytes.length) :
    (pushSetting a t i x).Does b fun stored b' => b.Extends b' ∧
      b'.trailingPad = b.trailingPad ∧
        (stored = true → b'.FieldLaid s f.type start b'.used.bytes.length x ∧
          b'.used.bytes.length =
            usedAfter b.used.bytes.length (s.inlineWidth f.type) (s.inlineAlignment f.type) ∧
            (b.forceDefaults = false → ¬ Omitted a i x)) ∧
          (stored = false → b.forceDefaults = false ∧ Omitted a i x) := by
  have laid {b' : Builder} {alignment : Nat} (same : s.inlineAlignment f.type = alignment)
      (stored : b.Stored b' alignment (x.bytes s f.type b'.used.bytes.length))
      (reference : ∀ p, x = .reference p →
        0 < p.rev ∧ p.rev + offsetSize ≤ b'.used.bytes.length)
      (sparse : b.forceDefaults = false → ¬ Omitted a i x) :
      b.Extends b' ∧ b'.trailingPad = b.trailingPad ∧
        (true = true → b'.FieldLaid s f.type start b'.used.bytes.length x ∧
          b'.used.bytes.length =
            usedAfter b.used.bytes.length (s.inlineWidth f.type) (s.inlineAlignment f.type) ∧
            (b.forceDefaults = false → ¬ Omitted a i x)) ∧
          (true = false → b.forceDefaults = false ∧ Omitted a i x) := by
    subst same
    have even := Setting.inlineAlignment_dvd_inlineWidth fits
    have longer := stored.length
    rw [Setting.length_bytes fits] at longer
    have least : b.used.bytes.length + s.inlineWidth f.type ≤ b'.used.bytes.length := by
      rw [longer, usedAfter]
      omega
    exact ⟨stored.grown.extends,
      stored.samePad_of_dvd (by rw [Setting.length_bytes fits]; exact even),
      fun _ => ⟨⟨stored.aligned, stored.asked, by omega, Setting.inlineWidth_pos filled fits,
        stored.held sound, reference⟩, longer, sparse⟩, by simp⟩
  have divides := Setting.inlineAlignment_dvd_eight fits
  unfold pushSetting
  cases x with
  | scalar v =>
    apply Does.get_bind
    split
    · rename_i omitted
      rw [Bool.and_eq_true] at omitted
      exact Does.of_pure ⟨Extends.refl b, rfl, by simp,
        fun _ => ⟨by simpa using omitted.2, v, rfl, omitted.1⟩⟩
    · rename_i kept
      have alignment := (Setting.inlineWidth_of_scalar fits).2
      rw [alignment] at divides
      apply Does.bind (store_does divides v.length_bytes) (fun _ _ h => h.grown.extends)
      refine fun _ b₁ stored => Does.of_pure (laid alignment stored (by simp) ?_)
      rintro unforced ⟨_, ⟨⟩, omitted⟩
      exact kept (by rw [omitted, unforced]; rfl)
  | reference p =>
    have alignment := (Setting.inlineWidth_of_accepts fits).2
    apply Does.bind (pushReference_does p.rev) (fun _ _ h => h.1.grown.extends)
    intro _ b₁ given
    obtain ⟨stored, behind⟩ := given
    exact Does.of_pure (laid alignment stored (by rintro _ ⟨⟩; exact behind) (by simp [Omitted]))
  | struct values =>
    obtain ⟨d, struct, types⟩ := fits
    have alignment := (Setting.inlineWidth_of_structOf? struct).2
    rw [alignment] at divides
    have found : t.fields[i]?.bind (fun f => TableArgs.structOf? a.schema f.type) = some d := by
      rw [field, schema, Option.bind_some, struct]
    dsimp only
    rw [found]
    have bytes (rev : Nat) : (Setting.struct values).bytes s f.type rev = structBytes d values := by
      rw [Setting.bytes, struct]
    apply Does.bind (store_does divides (length_structBytes types))
      (fun _ _ h => h.grown.extends)
    exact fun _ b₁ stored =>
      Does.of_pure (laid alignment (by rw [bytes]; exact stored) (by simp) (by simp [Omitted]))

private theorem lt_of_mem_done {settings : List (Option Setting)}
    {rest done : List (Option Setting × Nat)} {x y : Option Setting} {i j : Nat}
    (all : rest ++ (x, i) :: done = settings.zipIdx) (later : (y, j) ∈ done) : i < j := by
  have order : (settings.zipIdx.map Prod.snd).Pairwise (· < ·) := by
    rw [List.zipIdx_map_snd]
    exact List.pairwise_lt_range'
  rw [← all, List.map_append, List.pairwise_append, List.map_cons, List.pairwise_cons] at order
  exact order.2.1.1 j (List.mem_map.mpr ⟨_, later, rfl⟩)

/-- A field that is not set, or set to its default, need not be written. -/
private theorem FieldsLaid.skip {forced : Bool} {done : List (Option Setting × Nat)}
    {written : List (Nat × Nat)} {setting : Option Setting} {i : Nat}
    (h : b.FieldsLaid a start forced done written)
    (omitted : ∀ x, setting = some x → forced = false ∧ Omitted a i x) :
    b.FieldsLaid a start forced ((setting, i) :: done) written where
  sorted := h.sorted
  apart := h.apart
  laid j rev found := by
    obtain ⟨x, f, setting, rest⟩ := h.laid j rev found
    exact ⟨x, f, List.mem_cons_of_mem _ setting, rest⟩
  all x j found := by
    rcases List.mem_cons.mp found with same | before
    · cases same
      exact .inr (omitted x rfl)
    · exact h.all x j before

/-- One more field, in front of those that follow it. -/
private theorem FieldsLaid.cons {forced : Bool} {done : List (Option Setting × Nat)}
    {written : List (Nat × Nat)} {x : Setting} {i rev : Nat} {f : FieldDef}
    (h : b.FieldsLaid a start forced done written) (first : ∀ y j, (y, j) ∈ done → i < j)
    (inFront : ∀ w ∈ written, w.2 + a.schema.inlineWidth f.type ≤ rev)
    (field : a.schema.field? a.table i = some f) (fits : x.Fits a.schema f.type)
    (laid : b.FieldLaid a.schema f.type start rev x) (sparse : forced = false → ¬ Omitted a i x) :
    b.FieldsLaid a start forced ((some x, i) :: done) ((i, rev) :: written) where
  sorted := by
    rw [List.map_cons, List.pairwise_cons]
    refine ⟨?_, h.sorted⟩
    intro j later
    obtain ⟨⟨j, rev⟩, found, rfl⟩ := List.mem_map.mp later
    obtain ⟨y, g, setting, _⟩ := h.laid j rev found
    exact first _ j setting
  apart := by
    refine List.pairwise_cons.mpr ⟨?_, h.apart⟩
    intro later found g field'
    obtain rfl : f = g := Option.some.inj (field.symm.trans field')
    exact inFront later found
  laid j rev' found := by
    rcases List.mem_cons.mp found with same | before
    · cases same
      exact ⟨x, f, List.mem_cons_self, field, fits, laid, sparse⟩
    · obtain ⟨y, g, setting, rest⟩ := h.laid j rev' before
      exact ⟨y, g, List.mem_cons_of_mem _ setting, rest⟩
  all y j found := by
    rcases List.mem_cons.mp found with same | before
    · cases same
      exact .inl ⟨rev, List.mem_cons_self⟩
    · apply (h.all y j before).imp_left
      intro given
      obtain ⟨rev, found⟩ := given
      exact ⟨rev, List.mem_cons_of_mem _ found⟩

/-- Fields are written from the last to the first, so those done are the ones that follow. -/
theorem pushSettings_does {s : Schema} (filled : s.Filled) (fits : a.Fits s)
    {t : TableDef} (table : s.tables[a.table]? = some t) {forced : Bool}
    (rest : List (Option Setting × Nat)) :
    ∀ {b : Builder} {done : List (Option Setting × Nat)} {written : List (Nat × Nat)},
      rest.reverse ++ done = a.settings.toList.zipIdx → b.Sound → b.forceDefaults = forced →
      start ≤ b.used.bytes.length → b.FieldsLaid a start forced done written →
      (pushSettings a t rest written).Does b fun written' b' => b.Extends b' ∧
        b'.trailingPad = b.trailingPad ∧
          b'.FieldsLaid a start forced a.settings.toList.zipIdx written' := by
  induction rest with
  | nil =>
    intro b done written all sound _ room laid
    rw [← all]
    exact Does.of_pure ⟨Extends.refl b, rfl, laid⟩
  | cons next rest ih =>
    intro b done written all sound isForced room laid
    obtain ⟨setting, i⟩ := next
    rw [List.reverse_cons, List.append_assoc] at all
    have member : (setting, i) ∈ a.settings.toList.zipIdx := by rw [← all]; simp
    rw [List.mem_zipIdx_iff_getElem?, Array.getElem?_toList] at member
    cases setting with
    | none => exact ih all sound isForced room (laid.skip (by simp))
    | some x =>
      obtain ⟨f, field, _, holds⟩ := fits.setting i x member
      have field' : t.fields[i]? = some f := by
        rwa [Schema.field?, table, Option.bind_some] at field
      unfold pushSettings
      apply Does.bind (pushSetting_does filled fits.schema sound field' holds room)
        (fun _ _ h => h.1)
      intro stored b₁ given
      obtain ⟨⟨front, grown⟩, pad, here, omitted⟩ := given
      have laid₁ := laid.kept grown.keeps
      have isForced₁ : b₁.forceDefaults = forced := grown.forceDefaults.trans isForced
      have room₁ : start ≤ b₁.used.bytes.length := by
        rw [grown.length]
        omega
      cases stored with
      | false =>
        have skipped : b₁.FieldsLaid a start forced ((some x, i) :: done) written :=
          laid₁.skip fun y same => Option.some.inj same ▸ isForced ▸ omitted rfl
        exact Does.mono (ih all (grown.sound sound) isForced₁ room₁ skipped)
          fun _ _ h => ⟨grown.extends.trans h.1, h.2.1.trans pad, h.2.2⟩
      | true =>
        obtain ⟨stored, longer, sparse⟩ := here rfl
        have inFront (w : Nat × Nat) (found : w ∈ written) :
            w.2 + s.inlineWidth f.type ≤ b₁.used.bytes.length := by
          obtain ⟨_, _, _, _, _, later, _⟩ := laid.laid w.1 w.2 found
          have le := later.held.le
          rw [usedAfter] at longer
          omega
        have more : b₁.FieldsLaid a start forced ((some x, i) :: done)
            ((i, b₁.used.size) :: written) := by
          rw [b₁.used.size_eq]
          obtain rfl := fits.schema
          exact laid₁.cons (fun _ _ later => lt_of_mem_done all later) inFront field holds stored
            fun unforced => sparse (isForced.trans unforced)
        exact Does.get_bind (Does.mono (ih all (grown.sound sound) isForced₁ room₁ more)
          fun _ _ h => ⟨grown.extends.trans h.1, h.2.1.trans pad, h.2.2⟩)

/-- All fields of a table. -/
theorem pushAll_does {s : Schema} (filled : s.Filled) (fits : a.Fits s) {t : TableDef}
    (table : s.tables[a.table]? = some t) (sound : b.Sound) :
    (pushSettings a t a.settings.toList.zipIdx.reverse []).Does b fun written b' => b.Extends b' ∧
      b'.trailingPad = b.trailingPad ∧ b'.FieldsLaid a b.used.bytes.length b.forceDefaults
        a.settings.toList.zipIdx written := by
  have none : b.FieldsLaid a b.used.bytes.length b.forceDefaults [] [] :=
    ⟨.nil, .nil, by simp, by simp⟩
  exact pushSettings_does filled fits table _ (by simp) sound rfl (Nat.le_refl _) none

/-- A struct fills its size, so it needs no padding at the end either. -/
private theorem pushStruct_extends (d : StructDef) (values : List Value) :
    (pushStruct d values).Does b fun _ b' => b.Extends b' ∧ b'.trailingPad = b.trailingPad := by
  unfold pushStruct
  refine Does.bind (align_does d.alignment_dvd_eight) (fun _ _ h => h.1.extends) fun _ b₁ h => ?_
  obtain ⟨padded, _, samePad, _⟩ := h
  refine (push_does _).mono fun _ _ h' => ⟨(padded.trans h'.1).extends, h'.2.1.trans ?_⟩
  by_cases used : b.used.bytes = []
  · exact samePad (by rw [used, List.length_nil, Nat.zero_add]; exact d.alignment_dvd_size)
  · exact padded.trailingPad used

/-- Whatever a field is set to, writing it at most puts bytes in front. A field by itself needs no padding. -/
private theorem pushSetting_extends (t : TableDef) (i : Nat) (x : Setting) :
    (pushSetting a t i x).Does b fun _ b' => b.Extends b' ∧ b'.trailingPad = b.trailingPad := by
  unfold pushSetting
  cases x with
  | scalar v =>
    apply Does.get_bind
    split
    · exact Does.of_pure ⟨Extends.refl b, rfl⟩
    · refine Does.bind (store_does v.type.width_dvd_eight v.length_bytes)
        (fun _ _ h => h.grown.extends) fun _ _ h => Does.of_pure ⟨h.grown.extends, h.samePad_of_dvd ?_⟩
      rw [v.length_bytes]
      exact Nat.dvd_refl _
  | reference p =>
    refine Does.bind (pushReference_does p.rev) (fun _ _ h => h.1.grown.extends) fun _ _ h =>
      Does.of_pure ⟨h.1.grown.extends, h.1.samePad_of_dvd ?_⟩
    rw [Bytes.length_encode]
  | struct values =>
    dsimp only
    split
    · exact Does.of_throw _
    · exact (pushStruct_extends _ values).bind (fun _ _ h => h.1) fun _ _ h => Does.of_pure h

private theorem pushSettings_extends (t : TableDef) (entries : List (Option Setting × Nat))
    (written : List (Nat × Nat)) :
    (pushSettings a t entries written).Does b fun _ b' =>
      b.Extends b' ∧ b'.trailingPad = b.trailingPad := by
  induction entries generalizing b written with
  | nil => exact Does.of_pure ⟨Extends.refl b, rfl⟩
  | cons entry rest ih =>
    obtain ⟨x, i⟩ := entry
    cases x with
    | none => exact ih written
    | some x =>
      unfold pushSettings
      refine (pushSetting_extends t i x).bind (fun _ _ h => h.1) fun stored b₁ h => ?_
      have later (written : List (Nat × Nat)) : (pushSettings a t rest written).Does b₁ fun _ b' =>
          b.Extends b' ∧ b'.trailingPad = b.trailingPad :=
        (ih written).mono fun _ _ h' => ⟨h.1.trans h'.1, h'.2.trans h.2⟩
      cases stored with
      | true => exact Does.get_bind (later _)
      | false => exact later _

/-! ### The vtable -/

/-- The entry of a field that was written is its distance from the table. -/
private theorem getElem?_slotsFrom (object : Nat) {next i rev : Nat} {written : List (Nat × Nat)}
    (sorted : (written.map Prod.fst).Pairwise (· < ·)) (atLeast : ∀ w ∈ written, next ≤ w.1)
    (member : (i, rev) ∈ written) :
    (slotsFrom object next written)[i - next]? = some (object - rev) := by
  induction written generalizing next with
  | nil => cases member
  | cons w written ih =>
    obtain ⟨first, rest⟩ := List.pairwise_cons.mp sorted
    have least := atLeast w List.mem_cons_self
    simp only [slotsFrom]
    rcases List.mem_cons.mp member with rfl | later
    · rw [List.getElem?_append_right (by simp)]
      simp
    · have after : w.1 < i := first i (List.mem_map.mpr ⟨_, later, rfl⟩)
      have step := ih rest (fun v found => first v.1 (List.mem_map.mpr ⟨v, found, rfl⟩)) later
      rw [List.getElem?_append_right (by rw [List.length_replicate]; omega),
        List.length_replicate, show i - next - (w.1 - next) = i - (w.1 + 1) + 1 by omega,
        List.getElem?_cons_succ]
      exact step

/-- The entry of a field that was not written is zero, if there is one. -/
private theorem slotsFrom_of_not_mem (object : Nat) {next i : Nat} {written : List (Nat × Nat)}
    (sorted : (written.map Prod.fst).Pairwise (· < ·)) (atLeast : ∀ w ∈ written, next ≤ w.1)
    (least : next ≤ i) (absent : i ∉ written.map Prod.fst) :
    (slotsFrom object next written)[i - next]?.getD 0 = 0 := by
  induction written generalizing next with
  | nil => rfl
  | cons w written ih =>
    obtain ⟨first, rest⟩ := List.pairwise_cons.mp sorted
    rw [List.map_cons, List.mem_cons, not_or] at absent
    have above := atLeast w List.mem_cons_self
    simp only [slotsFrom]
    rcases Nat.lt_or_gt_of_ne absent.1 with before | after
    · rw [List.getElem?_append_left (by rw [List.length_replicate]; omega),
        List.getElem?_replicate]
      split <;> rfl
    · rw [List.getElem?_append_right (by rw [List.length_replicate]; omega),
        List.length_replicate, show i - next - (w.1 - next) = i - (w.1 + 1) + 1 by omega,
        List.getElem?_cons_succ]
      exact ih rest (fun v found => first v.1 (List.mem_map.mpr ⟨v, found, rfl⟩)) after absent.2

private theorem length_entries (entries : List Nat) :
    (entries.flatMap (Bytes.encode slotSize)).length = entries.length * slotSize :=
  length_flatMap fun n _ => Bytes.length_encode slotSize n

private theorem overwrite_bytes {block : Block} {front old new back : List UInt8}
    (split : block.bytes = front ++ (old ++ back)) (same : new.length = old.length) :
    (block.overwrite front.length new).bytes = front ++ (new ++ back) := by
  have inside : front.length + new.length ≤ block.size := by
    rw [block.size_eq, split, List.length_append, List.length_append, same]
    omega
  rw [Block.overwrite, dif_pos inside]
  dsimp only
  rw [split, same, List.take_left' rfl, ← List.append_assoc front old,
    List.drop_left' List.length_append, List.append_assoc]

/-- The vtable is written in front, and nothing else changes than the four bytes that were
reserved. -/
theorem pushVtable_does {b₁ : Builder} {old : List UInt8} (entries : List Nat)
    (reserved : b.Grown b₁ old) (length : old.length = offsetSize)
    (pad : b₁.trailingPad = b.trailingPad) (even : offsetSize ∣ b₁.used.bytes.length) :
    (pushVtable b₁.used.bytes.length entries).Does b₁ fun _ b' =>
      b.Grown b' (entries.flatMap (Bytes.encode slotSize) ++
        Bytes.encode offsetSize (entries.length * slotSize)) ∧ b'.trailingPad = b.trailingPad := by
  unfold pushVtable
  cases Contract.checkVtable entries with
  | error violation => exact Does.of_throw _
  | ok _ =>
    have fits : slotSize ∣ b₁.used.bytes.length + entries.length * slotSize :=
      Nat.dvd_add (Nat.dvd_trans (by decide) even) (Nat.dvd_mul_left _ _)
    apply Does.bind (align_does (by decide)) (fun _ _ h => h.1.extends)
    intro _ b₂ given
    obtain ⟨aligned, _, samePad, _⟩ := given
    rw [padding_of_dvd (by decide) fits, List.replicate_zero] at aligned
    apply Does.bind (push_does _) (fun _ _ h => h.1.extends)
    intro _ b₃ given
    obtain ⟨pushed, samePad', _⟩ := given
    refine Does.get_bind (Does.of_modify ?_)
    have whole := (reserved.trans aligned).trans pushed
    have used : b₃.used.bytes =
        entries.flatMap (Bytes.encode slotSize) ++ (old ++ b.used.bytes) := by
      rw [whole.used]
      simp
    have distance : b₃.used.size - b₁.used.bytes.length =
        (entries.flatMap (Bytes.encode slotSize)).length := by
      rw [b₃.used.size_eq, used, reserved.length]
      simp only [List.length_append]
      omega
    have back : (Bytes.encode offsetSize (entries.length * slotSize)).length = old.length := by
      rw [Bytes.length_encode, length]
    have written := overwrite_bytes used back
    rw [distance, length_entries]
    rw [length_entries] at written
    refine ⟨⟨?_, ?_, whole.minAlign, whole.placed, whole.forceDefaults,
      ?_⟩, ?_⟩
    · rw [List.append_assoc]
      exact written
    · intro some
      dsimp only
      rw [samePad', samePad fits, pad]
    · intro sound
      have sound' := whole.sound sound
      have room : (b₃.used.overwrite (entries.length * slotSize)
          (Bytes.encode offsetSize (entries.length * slotSize))).bytes.length =
            b₃.used.bytes.length := by
        rw [written, used]
        simp only [List.length_append, back]
      exact ⟨by rw [room]; exact sound'.small, by rw [room]; exact sound'.trailingPad,
        sound'.minAlign, sound'.listed.mono rfl (Nat.le_of_eq room.symm)⟩
    · dsimp only
      rw [samePad', samePad fits, pad]

/-! ### Whole tables -/

/-- The frame of a table that starts at distance `object`: it reaches to distance `start`, as the vtable
tells, which ends where the table begins and has these entries. -/
structure TableFramed (b : Builder) (object start : Nat) (slots : List Nat) : Prop where
  aligned : offsetSize ∣ object
  before : b.trailingPad ≤ start
  room : start + offsetSize ≤ object
  small : object - start ≤ maxInline
  few : vtableHeader + slots.length * slotSize ≤ maxInline
  back : b.Held object (Bytes.encode offsetSize ((slots.length + 2) * slotSize))
  vtable : b.Held (object + (slots.length + 2) * slotSize)
    (((vtableHeader + slots.length * slotSize) :: (object - start) :: slots).flatMap
      (Bytes.encode slotSize))

theorem TableFramed.kept {object : Nat} {slots : List Nat} (h : b.TableFramed object start slots)
    (keeps : b.Keeps b') : b'.TableFramed object start slots where
  aligned := h.aligned
  before := by
    have used : b.used.bytes ≠ [] := by
      have inFront := h.back.le
      have room := h.room
      simp only [offsetSize] at room
      exact List.ne_nil_of_length_pos (by omega)
    rw [keeps.trailingPad used]
    exact h.before
  room := h.room
  small := h.small
  few := h.few
  back := h.back.kept (by rw [Bytes.length_encode]; decide) keeps
  vtable := h.vtable.kept (by rw [length_entries, List.length_cons]; simp [slotSize]) keeps

/-- A table that starts at distance `object`: its fields lie behind distance `start` in the order of
their numbers, and the vtable, which ends where the table begins, has these entries. -/
structure TableLaid (b : Builder) (object : Nat) (a : TableArgs) (start : Nat) (slots : List Nat) :
    Prop where
  aligned : offsetSize ∣ object
  before : b.trailingPad ≤ start
  room : start + offsetSize ≤ object
  small : object - start ≤ maxInline
  few : vtableHeader + slots.length * slotSize ≤ maxInline
  back : b.Held object (Bytes.encode offsetSize ((slots.length + 2) * slotSize))
  vtable : b.Held (object + (slots.length + 2) * slotSize)
    (((vtableHeader + slots.length * slotSize) :: (object - start) :: slots).flatMap
      (Bytes.encode slotSize))
  stored : ∀ i x, a.settings[i]? = some (some x) →
    (∃ rev f, slots[i]? = some (object - rev) ∧ rev + offsetSize ≤ object ∧
      a.schema.field? a.table i = some f ∧ x.Fits a.schema f.type ∧
        b.FieldLaid a.schema f.type start rev x) ∨
      (slots[i]?.getD 0 = 0 ∧ Omitted a i x)
  missing : ∀ i : Nat, (∀ x, a.settings[i]? ≠ some (some x)) → slots[i]?.getD 0 = 0
  ordered : ∀ (i j d d' : Nat) f, i < j → slots[i]? = some d → slots[j]? = some d' → d ≠ 0 → d' ≠ 0 →
    a.schema.field? a.table i = some f → d + a.schema.inlineWidth f.type ≤ d'

def Sparse (a : TableArgs) (slots : List Nat) : Prop :=
  ∀ (i : Nat) x, a.settings[i]? = some (some x) → Omitted a i x → slots[i]?.getD 0 = 0

def Full (a : TableArgs) (slots : List Nat) : Prop :=
  ∀ (i : Nat) x, a.settings[i]? = some (some x) → slots[i]?.getD 0 ≠ 0

theorem TableLaid.framed {object : Nat} {slots : List Nat} (h : b.TableLaid object a start slots) :
    b.TableFramed object start slots :=
  ⟨h.aligned, h.before, h.room, h.small, h.few, h.back, h.vtable⟩

theorem TableLaid.kept {object : Nat} {slots : List Nat} (h : b.TableLaid object a start slots)
    (keeps : b.Keeps b') : b'.TableLaid object a start slots := by
  obtain ⟨aligned, before, room, small, few, back, vtable⟩ := h.framed.kept keeps
  refine ⟨aligned, before, room, small, few, back, vtable, fun i x set => ?_, h.missing, h.ordered⟩
  apply (h.stored i x set).imp_left
  intro given
  obtain ⟨rev, f, slot, inside, field, fits, laid⟩ := given
  exact ⟨rev, f, slot, inside, field, fits, laid.kept fits keeps⟩

/-- At one distance there is only one table. -/
theorem TableLaid.unique {object start' : Nat} {slots slots' : List Nat}
    (h : b.TableLaid object a start slots) (h' : b.TableLaid object a start' slots') :
    start = start' ∧ slots.length = slots'.length := by
  have few := h.few
  have few' := h'.few
  have small := h.small
  have small' := h'.small
  simp only [maxInline, vtableHeader, slotSize] at few few' small small'
  have decoded {width n m : Nat} (hn : n < 256 ^ width) (hm : m < 256 ^ width)
      (same : Bytes.encode width n = Bytes.encode width m) : n = m := by
    rw [← Bytes.decode_encode hn, same, Bytes.decode_encode hm]
  have back := decoded (by simp only [slotSize, offsetSize]; omega)
    (by simp only [slotSize, offsetSize]; omega)
    (h.back.unique h'.back (by simp only [Bytes.length_encode]))
  have length : slots.length = slots'.length := by
    simp only [slotSize] at back
    omega
  refine ⟨?_, length⟩
  have size := h.vtable.item (i := 1) (fun n _ => Bytes.length_encode slotSize n) rfl
  have size' := h'.vtable.item (i := 1) (fun n _ => Bytes.length_encode slotSize n) rfl
  rw [length] at size
  have same := decoded (by simp only [slotSize]; omega) (by simp only [slotSize]; omega)
    (size.unique size' (by simp only [Bytes.length_encode]))
  have room := h.room
  have room' := h'.room
  simp only [offsetSize] at room room'
  omega

theorem checkSettings_does (settings : List (Option Setting)) :
    (settings.forM checkSetting).Does b fun _ b' => b' = b ∧
      ∀ p, some (.reference p) ∈ settings → p ∈ b.placed := by
  induction settings with
  | nil => exact Does.of_pure ⟨rfl, by simp⟩
  | cons x settings ih =>
    have first : (checkSetting x).Does b fun _ b' => b' = b ∧
        ∀ p, x = some (.reference p) → p ∈ b.placed := by
      cases x with
      | none => exact Does.of_pure ⟨rfl, by simp⟩
      | some x =>
        cases x with
        | scalar v | struct values => exact Does.of_pure ⟨rfl, by simp⟩
        | reference p =>
          apply Does.mono (checkPlaced_does p)
          intro _ _ given
          obtain ⟨rfl, placed⟩ := given
          exact ⟨rfl, by rintro _ ⟨⟩; exact placed⟩
    rw [List.forM_eq_forM, List.forM_cons]
    apply Does.bind first (fun _ _ h => h.1 ▸ Extends.refl b)
    intro _ b given
    obtain ⟨rfl, here⟩ := given
    apply Does.mono ih
    intro _ _ given
    obtain ⟨rfl, rest⟩ := given
    refine ⟨rfl, ?_⟩
    intro p member
    rcases List.mem_cons.mp member with same | later
    · exact here p same.symm
    · exact rest p later

/-- What holds of any two fields in the order in which they are listed, which is that of their
numbers. -/
private theorem of_pairwise {R : Nat × Nat → Nat × Nat → Prop} {l : List (Nat × Nat)}
    (sorted : (l.map Prod.fst).Pairwise (· < ·)) (h : l.Pairwise R) {p q : Nat × Nat}
    (first : p ∈ l) (second : q ∈ l) (before : p.1 < q.1) : R p q := by
  induction l with
  | nil => cases first
  | cons w l ih =>
    obtain ⟨least, sorted⟩ := List.pairwise_cons.mp sorted
    obtain ⟨here, rest⟩ := List.pairwise_cons.mp h
    rcases List.mem_cons.mp first with rfl | first
    · rcases List.mem_cons.mp second with rfl | second
      · exact absurd before (Nat.lt_irrefl _)
      · exact here q second
    · rcases List.mem_cons.mp second with same | second
      · have after := least p.1 (List.mem_map_of_mem first)
        rw [← same] at after
        exact absurd before (Nat.not_lt.mpr (Nat.le_of_lt after))
      · exact ih sorted rest first second

section
variable {forced : Bool} {written : List (Nat × Nat)} {i : Nat}
  (laid : b.FieldsLaid a start forced a.settings.toList.zipIdx written)
include laid

/-- A field that was written was set. -/
theorem FieldsLaid.exists_setting {rev : Nat} (found : (i, rev) ∈ written) :
    ∃ x f, a.settings[i]? = some (some x) ∧ a.schema.field? a.table i = some f ∧
      x.Fits a.schema f.type ∧ b.FieldLaid a.schema f.type start rev x ∧
        (forced = false → ¬ Omitted a i x) := by
  obtain ⟨x, f, setting, rest⟩ := laid.laid i rev found
  rw [List.mem_zipIdx_iff_getElem?, Array.getElem?_toList] at setting
  exact ⟨x, f, setting, rest⟩

theorem FieldsLaid.slot_of_mem (object : Nat) {rev : Nat} (found : (i, rev) ∈ written) :
    (slotsFrom object 0 written)[i]? = some (object - rev) :=
  getElem?_slotsFrom object laid.sorted (fun _ _ => Nat.zero_le _) found

private theorem FieldsLaid.slot_of_not_mem (object : Nat) (absent : ∀ rev, (i, rev) ∉ written) :
    (slotsFrom object 0 written)[i]?.getD 0 = 0 := by
  apply slotsFrom_of_not_mem object laid.sorted (fun _ _ => Nat.zero_le _) (Nat.zero_le i)
  intro stored
  obtain ⟨⟨j, rev⟩, found, rfl⟩ := List.mem_map.mp stored
  exact absent rev found

/-- Only a field that was written has an entry. -/
private theorem FieldsLaid.mem_of_slot {object d : Nat}
    (slot : (slotsFrom object 0 written)[i]? = some d) (some : d ≠ 0) :
    ∃ rev, (i, rev) ∈ written ∧ d = object - rev := by
  by_cases stored : ∃ rev, (i, rev) ∈ written
  · obtain ⟨rev, found⟩ := stored
    exact ⟨rev, found, Option.some.inj (slot.symm.trans (laid.slot_of_mem object found))⟩
  · have zero := laid.slot_of_not_mem object (not_exists.mp stored)
    rw [slot, Option.getD_some] at zero
    exact absurd zero some

end

/-- The fields and the frame together. -/
private theorem tableLaid_of_written {object : Nat} {forced : Bool} {written : List (Nat × Nat)}
    (framed : b.TableFramed object start (slotsFrom object 0 written))
    (laid : b.FieldsLaid a start forced a.settings.toList.zipIdx written)
    (behind : ∀ w ∈ written, w.2 + offsetSize ≤ object) :
    b.TableLaid object a start (slotsFrom object 0 written) := by
  obtain ⟨aligned, before, room, small, few, back, vtable⟩ := framed
  refine ⟨aligned, before, room, small, few, back, vtable, ?_, ?_, ?_⟩
  · intro i x set
    by_cases stored : ∃ rev, (i, rev) ∈ written
    · obtain ⟨rev, found⟩ := stored
      obtain ⟨y, f, setting, field, fits, fieldLaid, _⟩ := laid.exists_setting found
      obtain rfl : x = y := by simpa [set] using setting
      exact .inl ⟨rev, f, laid.slot_of_mem object found, behind _ found, field, fits, fieldLaid⟩
    · refine .inr ⟨laid.slot_of_not_mem object (not_exists.mp stored), ?_⟩
      have member : (some x, i) ∈ a.settings.toList.zipIdx := by
        rw [List.mem_zipIdx_iff_getElem?, Array.getElem?_toList, set]
      exact ((laid.all x i member).resolve_left stored).2
  · intro i unset
    apply laid.slot_of_not_mem object
    intro rev found
    obtain ⟨y, f, setting, _⟩ := laid.exists_setting found
    exact unset y setting
  · intro i j d d' f before slot slot' some some' field
    obtain ⟨rev, found, rfl⟩ := laid.mem_of_slot slot some
    obtain ⟨rev', found', rfl⟩ := laid.mem_of_slot slot' some'
    have inFront := behind _ found
    have apart := of_pairwise laid.sorted laid.apart found found' before f field
    dsimp only at apart inFront
    omega

/-- Defaults that are not forced are not written. -/
private theorem sparse_of_written {forced : Bool} {written : List (Nat × Nat)} (object : Nat)
    (laid : b.FieldsLaid a start forced a.settings.toList.zipIdx written)
    (unforced : forced = false) : Sparse a (slotsFrom object 0 written) := by
  intro i x set omitted
  apply laid.slot_of_not_mem object
  intro rev found
  obtain ⟨y, _, setting, _, _, _, sparse⟩ := laid.exists_setting found
  obtain rfl : x = y := by simpa [set] using setting
  exact sparse unforced omitted

/-- Where defaults are forced everything is written. -/
private theorem full_of_written {forced : Bool} {written : List (Nat × Nat)} {object : Nat}
    (laid : b.FieldsLaid a start forced a.settings.toList.zipIdx written)
    (inFront : ∀ i rev, (i, rev) ∈ written → rev < object) (isForced : forced = true) :
    Full a (slotsFrom object 0 written) := by
  intro i x set
  have member : (some x, i) ∈ a.settings.toList.zipIdx := by
    rw [List.mem_zipIdx_iff_getElem?, Array.getElem?_toList, set]
  rcases laid.all x i member with ⟨rev, found⟩ | ⟨unforced, _⟩
  · have before := inFront i rev found
    rw [laid.slot_of_mem object found, Option.getD_some]
    omega
  · simp [isForced] at unforced

structure TableWritten (b b' : Builder) (a : TableArgs) (object : Nat) (written : List (Nat × Nat)) :
    Prop where
  creates : b.Creates b' object .table
  fields : b'.FieldsLaid a b.used.bytes.length b.forceDefaults a.settings.toList.zipIdx written
  behind : ∀ w ∈ written, w.2 + offsetSize ≤ object
  laid : b'.TableLaid object a b.used.bytes.length (slotsFrom object 0 written)
  front : b'.used.bytes.length = object + ((slotsFrom object 0 written).length + 2) * slotSize
  placed : ∀ (i : Nat) p, a.settings[i]? = some (some (.reference p)) → p ∈ b.placed

/-- What follows the fields of a table that begin at distance `start`: padding up to `b₂`, four bytes for the
distance of the vtable, and in front of them the vtable, up to `b₃`. -/
structure Completed (b₁ b₂ b₃ : Builder) (start object : Nat) (slots : List Nat) : Prop where
  padded : b₁.Grown b₂ (List.replicate (padding (b₁.used.bytes.length + offsetSize) offsetSize) 0)
  samePad : offsetSize ∣ b₁.used.bytes.length + offsetSize → b₂.trailingPad = b₁.trailingPad
  reserved : object = offsetSize + b₂.used.bytes.length
  small : ¬ maxInline < object - start
  few : ¬ maxInline < vtableHeader + slots.length * slotSize
  vtable : b₂.Grown b₃ (((vtableHeader + slots.length * slotSize) :: (object - start) :: slots).flatMap
    (Bytes.encode slotSize) ++ Bytes.encode offsetSize ((slots.length + 2) * slotSize))
  vtablePad : b₃.trailingPad = b₂.trailingPad

theorem Completed.creates {b₁ b₂ b₃ : Builder} {object : Nat} {slots : List Nat}
    (completed : Completed b₁ b₂ b₃ start object slots) (grows : b.Extends b₁) :
    b.Creates { b₃ with placed := ⟨object, .table⟩ :: b₃.placed } object .table := by
  obtain ⟨front, grown⟩ := grows
  have whole := (grown.trans completed.padded).trans completed.vtable
  have before := (grown.trans completed.padded).length
  have inFront := completed.vtable.length
  have reserved := completed.reserved
  rw [List.length_append, Bytes.length_encode] at inFront
  refine ⟨b₃, _, whole, ?_, by omega, by rw [whole.placed]⟩
  simp only [offsetSize] at reserved
  omega

/-- A table that is completed has its frame, which reaches to where its fields begin. -/
theorem Completed.framed {b₁ b₂ b₃ : Builder} {object : Nat} {slots : List Nat}
    (completed : Completed b₁ b₂ b₃ start object slots) (room : start ≤ b₁.used.bytes.length)
    (before : b₁.trailingPad ≤ start) : b₃.TableFramed object start slots := by
  obtain ⟨padded, samePad, reserved, small, few, vtable, vtablePad⟩ := completed
  have pad : b₂.trailingPad = b₁.trailingPad := by
    by_cases used : b₁.used.bytes = []
    · exact samePad (by rw [used, List.length_nil, Nat.zero_add])
    · exact padded.trailingPad used
  have longer := padded.length
  have entries : (((vtableHeader + slots.length * slotSize) :: (object - start) :: slots).flatMap
      (Bytes.encode slotSize)).length = (slots.length + 2) * slotSize := length_entries _
  have total := vtable.length
  rw [List.length_append, entries, Bytes.length_encode] at total
  have used := vtable.used
  rw [List.append_assoc] at used
  refine ⟨?_, by omega, by omega, Nat.le_of_not_lt small, Nat.le_of_not_lt few, ⟨⟨_, _, used, ?_⟩, ?_⟩, ?_⟩
  · rw [reserved, Nat.add_comm]
    exact padded.aligned (by decide)
  · rw [Bytes.length_encode, reserved]
  · rw [Bytes.length_encode]
    omega
  · have front : b₃.used.bytes.length = object + (slots.length + 2) * slotSize := by omega
    rw [← front]
    refine .of_append used ?_
    rw [entries]
    omega

/-- Whatever writing the fields does, a table is completed behind them, and only what has been placed is
referred to. -/
theorem createTable_completes {pushed : List (Nat × Nat) → Builder → Prop}
    (does : ∀ t, a.schema.tables[a.table]? = some t →
      (pushSettings a t a.settings.toList.zipIdx.reverse []).Does b fun written b₁ =>
        b.Extends b₁ ∧ pushed written b₁) :
    (createTable a).Does b fun r b' =>
      (∀ p, some (.reference p) ∈ a.settings.toList → p ∈ b.placed) ∧
        ∃ written b₁ b₂ b₃, (b.Extends b₁ ∧ pushed written b₁) ∧
          Completed b₁ b₂ b₃ b.used.bytes.length r.rev (slotsFrom r.rev 0 written) ∧
            b' = { b₃ with placed := ⟨r.rev, .table⟩ :: b₃.placed } := by
  unfold createTable
  cases table : a.schema.tables[a.table]? with
  | none => exact Does.of_throw _
  | some t =>
    dsimp only
    apply Does.bind (checkSettings_does _) (fun _ _ h => h.1 ▸ Extends.refl b)
    intro _ b given
    obtain ⟨rfl, placed⟩ := given
    apply Does.get_bind
    apply Does.bind (does t table) (fun _ _ h => h.1)
    intro written b₁ given
    apply Does.bind (align_does (by decide)) (fun _ _ h => h.1.extends)
    intro _ b₂ aligned
    obtain ⟨padded, _, samePad, _⟩ := aligned
    apply Does.bind (reserve_does offsetSize) (fun _ _ ⟨_, _, h, _⟩ => h.extends)
    intro _ b₃ claimed
    obtain ⟨old, length, reserved, pad⟩ := claimed
    apply Does.get_bind
    have object : b₃.used.bytes.length = offsetSize + b₂.used.bytes.length := by
      rw [reserved.length, length]
    have even : offsetSize ∣ b₃.used.bytes.length := by
      rw [object, Nat.add_comm]
      exact padded.aligned (by decide)
    rw [b₃.used.size_eq, b.used.size_eq]
    by_cases large : maxInline < b₃.used.bytes.length - b.used.bytes.length
    · rw [if_pos large]
      exact Does.throw_bind _
    rw [if_neg large]
    by_cases many : maxInline <
        vtableHeader + (slotsFrom b₃.used.bytes.length 0 written).length * slotSize
    · rw [if_pos many]
      exact Does.throw_bind _
    rw [if_neg many]
    apply Does.modify_after (pushVtable_does _ reserved length pad even)
    intro _ b₄ vtable
    exact ⟨placed, written, b₁, b₂, b₄, given, ⟨padded, samePad, object, large, many, vtable.1, vtable.2⟩, rfl⟩

/-- A table may be created from any arguments, whether or not they fit, and then has its frame. -/
theorem createTable_frames (sound : b.Sound) (a : TableArgs) :
    (createTable a).Does b fun r b' => b.Creates b' r.rev .table ∧
      ∃ slots, b'.TableFramed r.rev b.used.bytes.length slots := by
  refine (createTable_completes fun t _ => pushSettings_extends t _ _).mono fun r b' given => ?_
  obtain ⟨_, _, b₁, _, b₃, ⟨grows, pad⟩, completed, rfl⟩ := given
  have room : b.used.bytes.length ≤ b₁.used.bytes.length := by
    obtain ⟨_, grown⟩ := grows
    rw [grown.length]
    omega
  exact ⟨completed.creates grows, _,
    (completed.framed room (by rw [pad]; exact sound.trailingPad)).kept (keeps_placed b₃ _)⟩

theorem createTable_creates (a : TableArgs) :
    (createTable a).Does b fun r b' => b.Creates b' r.rev .table := by
  refine (createTable_completes fun t _ => pushSettings_extends t _ _).mono fun r b' given => ?_
  obtain ⟨_, _, _, _, _, ⟨grows, _⟩, completed, rfl⟩ := given
  exact completed.creates grows

/-- Whatever writing the fields does besides, the table is written with these fields. -/
theorem createTable_writes {s : Schema} (filled : s.Filled) (fits : a.Fits s) (sound : b.Sound)
    {pushed : List (Nat × Nat) → Builder → Prop}
    (does : ∀ t, s.tables[a.table]? = some t →
      (pushSettings a t a.settings.toList.zipIdx.reverse []).Does b pushed) :
    (createTable a).Does b fun r b' => ∃ written b₁, pushed written b₁ ∧
      r.rev = usedAfter b₁.used.bytes.length offsetSize offsetSize ∧
        b.TableWritten b' a r.rev written := by
  have fields (t : TableDef) (table : a.schema.tables[a.table]? = some t) :
      (pushSettings a t a.settings.toList.zipIdx.reverse []).Does b fun written b₁ => b.Extends b₁ ∧
        (b₁.trailingPad = b.trailingPad ∧ b₁.FieldsLaid a b.used.bytes.length b.forceDefaults
          a.settings.toList.zipIdx written) ∧ pushed written b₁ := by
    rw [fits.schema] at table
    exact ((pushAll_does filled fits table sound).and (does t table)).mono fun _ _ h =>
      ⟨h.1.1, h.1.2, h.2⟩
  refine (createTable_completes fields).mono fun r b' given => ?_
  obtain ⟨placed, written, b₁, b₂, b₃, ⟨grows, ⟨samePad₁, laid⟩, also⟩, completed, rfl⟩ := given
  have creates := completed.creates grows
  have room : b.used.bytes.length ≤ b₁.used.bytes.length := by
    obtain ⟨_, grown⟩ := grows
    rw [grown.length]
    omega
  have framed := completed.framed room (by rw [samePad₁]; exact sound.trailingPad)
  obtain ⟨padded, _, object, _, _, vtable, _⟩ := completed
  have behind (w : Nat × Nat) (found : w ∈ written) : w.2 + offsetSize ≤ r.rev := by
    obtain ⟨_, _, _, _, _, fieldLaid, _⟩ := laid.exists_setting found
    have inUsed := fieldLaid.held.le
    rw [object, padded.length]
    omega
  have laid₃ := (laid.kept padded.keeps).kept vtable.keeps
  have placing := keeps_placed b₃ (⟨r.rev, .table⟩ :: b₃.placed)
  refine ⟨written, b₁, also, ?_, creates, laid₃.kept placing, behind,
    (tableLaid_of_written framed laid₃ behind).kept placing, ?_,
    fun i p set => placed p (Array.mem_toList_iff.mpr (Array.mem_of_getElem? set))⟩
  · rw [object, padded.length, List.length_replicate, usedAfter]
    omega
  · dsimp only
    rw [vtable.length, List.length_append, length_entries, Bytes.length_encode, object, Nat.add_assoc,
      Nat.add_comm]
    rfl

theorem createTable_does {s : Schema} (filled : s.Filled) (fits : a.Fits s) (sound : b.Sound) :
    (createTable a).Does b fun r b' => b.Creates b' r.rev .table ∧
      (∃ slots, b'.TableLaid r.rev a b.used.bytes.length slots ∧
        (b.forceDefaults = false → Sparse a slots) ∧ (b.forceDefaults = true → Full a slots)) ∧
        ∀ (i : Nat) p, a.settings[i]? = some (some (.reference p)) → p ∈ b.placed := by
  apply Does.mono (createTable_writes filled fits sound fun t table =>
    pushAll_does filled fits table sound)
  intro r b' given
  obtain ⟨written, _, _, _, table⟩ := given
  refine ⟨table.creates, ⟨_, table.laid, sparse_of_written _ table.fields,
    full_of_written table.fields fun i rev found => ?_⟩, table.placed⟩
  have behind := table.behind _ found
  simp only [offsetSize] at behind
  omega

end Builder
end FlatTable

import FlatTable.Proofs.Builder.Space
import FlatTable.Proofs.Character.Stored

/-! How large the buffer of a character is: it can be encoded exactly if no more bytes are needed than a buffer
holds. -/
namespace FlatTable
open Layout Build Builder

namespace Layout

def padded (size : Nat) : Nat := size + padding size offsetSize

def blockSpace (size : Nat) : Nat := offsetSize + padded size

theorem padded_eq (size : Nat) : padded size = size + (4 - size % 4) % 4 := by
  have less : padding size 4 < 4 := padding_lt size (by decide)
  have whole : 4 ∣ size + padding size 4 := dvd_add_padding size (by decide)
  change size + padding size 4 = _
  omega

theorem usedAfter_four (used size : Nat) : usedAfter used size offsetSize = padded (used + size) := by
  rw [usedAfter, padded]
  omega

/-- In front of whole words an object takes its own bytes, and the padding behind them. -/
private theorem usedAfter_block {used : Nat} (aligned : offsetSize ∣ used) (size : Nat) :
    usedAfter (usedAfter used size offsetSize) offsetSize offsetSize = used + blockSpace size := by
  rw [usedAfter_four, usedAfter_four, blockSpace]
  simp only [padded_eq, offsetSize] at aligned ⊢
  omega

private theorem dvd_blockSpace (size : Nat) : offsetSize ∣ blockSpace size := by
  rw [blockSpace]
  simp only [padded_eq, offsetSize]
  omega

end Layout

/-! ### What drafts place -/

/-- A value, text or numbers of at most four bytes: nothing that leads to further objects. -/
inductive Draft.Flat : Draft → Prop where
  | scalar {v : Value} : Flat (.scalar v)
  | string {text : String} : Flat (.string text)
  | scalars {t : ScalarType} {items : List Value} (small : t.width ≤ offsetSize)
      (typed : ∀ v ∈ items, v.type = t) : Flat (.scalars t items)

def Draft.space : Draft → Nat
  | .string text => blockSpace ((Text.encodeUtf8 text).length + 1)
  | .scalars t items => blockSpace (items.length * t.width)
  | _ => 0

namespace Builder
variable {b : Builder} {s : Schema}

private theorem setting_takes (spacious : b.Spacious) (aligned : offsetSize ∣ b.used.bytes.length) {d : Draft}
    (flat : d.Flat) : (d.setting s).Takes b (b.used.bytes.length + d.space) := by
  cases flat with
  | scalar =>
    rw [Draft.setting]
    exact .of_pure spacious rfl
  | @string text =>
    rw [Draft.setting, Draft.space, ← usedAfter_block aligned]
    exact (createString_takes spacious text).bind (Nat.le_refl _) fun _ _ _ spacious' used =>
      .of_pure spacious' used
  | scalars small typed =>
    rw [Draft.setting, Draft.space, ← usedAfter_block aligned]
    exact (createVector_takes spacious small typed).bind (Nat.le_refl _) fun _ _ _ spacious' used =>
      .of_pure spacious' used

/-- Setting fields takes what each of them places. -/
theorem setEach_takes (s : Schema) (fields : List (Nat × Draft)) {b : Builder} (spacious : b.Spacious)
    (aligned : offsetSize ∣ b.used.bytes.length) (flat : ∀ e ∈ fields, e.2.Flat) (a : TableArgs) :
    (Draft.setEach s fields a).Takes b
      (b.used.bytes.length + (fields.map fun e => e.2.space).sum) := by
  induction fields generalizing b a with
  | nil =>
    rw [Draft.setEach]
    exact .of_pure spacious rfl
  | cons e rest ih =>
    obtain ⟨i, d⟩ := e
    obtain ⟨first, rest'⟩ := List.forall_mem_cons.mp flat
    rw [Draft.setEach, List.map_cons, List.sum_cons, ← Nat.add_assoc]
    refine (setting_takes spacious aligned first).bind (Nat.le_add_right _ _) fun set b₁ _ spacious₁ used => ?_
    have aligned₁ : offsetSize ∣ b₁.used.bytes.length := by
      rw [used]
      refine Nat.dvd_add aligned ?_
      cases first with
      | scalar => exact Nat.dvd_zero _
      | string | scalars => exact dvd_blockSpace _
    rw [← used]
    exact ih spacious₁ aligned₁ rest' _

end Builder

namespace Character
variable {c : Character}

def stored (c : Character) : List Nat :=
  ([(manaField, decide (c.mana ≠ standard.mana)), (hpField, decide (c.hp ≠ standard.hp)),
    (nameField, c.name.isSome), (inventoryField, c.inventory.isSome),
    (typeField, decide (c.type ≠ standard.type))].filter (·.2)).map (·.1)

def slots (c : Character) : Nat := (c.stored.max?.map (· + 1)).getD 0

def blocks (c : Character) : Nat :=
  (c.name.map fun text => blockSpace ((Text.encodeUtf8 text).length + 1)).getD 0 +
    (c.inventory.map fun bytes => blockSpace bytes.length).getD 0

/-- The bytes that encoding the character takes: what its table refers to, the fields of the table and the distance
to its vtable, the vtable, and the reference to the table. -/
def space (c : Character) : Nat :=
  c.blocks + (c.stored.length + 1) * offsetSize + padded (vtableHeader + c.slots * slotSize) + offsetSize

private theorem fields_flat (c : Character) : ∀ e ∈ c.fields, e.2.Flat := by
  intro e member
  rcases mem_fields.mp member with rfl | rfl | ⟨_, _, rfl⟩ | ⟨_, _, rfl⟩ | rfl
  · exact .scalar
  · exact .scalar
  · exact .string
  · exact .scalars (by decide) fun v inBytes => type_of_mem_bytesOf inBytes
  · exact .scalar

private theorem sum_fields (c : Character) : (c.fields.map fun e => e.2.space).sum = c.blocks := by
  have width : ScalarType.ubyte.width = 1 := rfl
  obtain ⟨mana, hp, name, inventory, type⟩ := c
  cases name <;> cases inventory <;> simp [fields, blocks, Draft.space, bytesOf, width]

private theorem dvd_blocks (c : Character) : offsetSize ∣ c.blocks := by
  refine Nat.dvd_add ?_ ?_
  · cases c.name with
    | none => exact Nat.dvd_zero _
    | some text => exact dvd_blockSpace _
  · cases c.inventory with
    | none => exact Nat.dvd_zero _
    | some bytes => exact dvd_blockSpace _

private theorem mem_stored {i : Nat} : i ∈ c.stored ↔
    i = manaField ∧ c.mana ≠ standard.mana ∨ i = hpField ∧ c.hp ≠ standard.hp ∨
      i = nameField ∧ c.name.isSome ∨ i = inventoryField ∧ c.inventory.isSome ∨
        i = typeField ∧ c.type ≠ standard.type := by
  simp only [stored, List.mem_map, List.mem_filter, List.mem_cons, List.not_mem_nil, or_false, Prod.exists,
    Prod.mk.injEq]
  constructor
  · rintro ⟨i, b, same | same | same | same | same, holds, rfl⟩ <;> simp_all
  · rintro (⟨rfl, holds⟩ | ⟨rfl, holds⟩ | ⟨rfl, holds⟩ | ⟨rfl, holds⟩ | ⟨rfl, holds⟩) <;>
      simp [holds]

/-- What is stored is what is left of the fields without the defaults. -/
private theorem mem_kept_iff {settings : List (Nat × Draft)} (order : settings.Perm c.fields) {i : Nat} :
    i ∈ (Draft.kept schema false 0 settings).map Prod.fst ↔ i ∈ c.stored := by
  have scalar {j : Nat} {v w : Value} (exact : v.type.format? = none)
      (declared : schema.fieldDefault? 0 j = some w) :
      (Draft.scalar v).omitted schema 0 j = false ↔ v ≠ w := by
    rw [← Bool.not_eq_true, omitted_iff exact, declared, Option.some.injEq, ne_comm]
  have mana := scalar (j := manaField) (v := int c.mana) (w := int standard.mana) rfl rfl
  have hp := scalar (j := hpField) (v := int c.hp) (w := int standard.hp) rfl rfl
  have type := scalar (j := typeField) (v := typeValue c.type) (w := typeValue standard.type) rfl rfl
  rw [int_injective.ne_iff] at mana hp
  rw [typeValue_injective.ne_iff] at type
  have kept {d : Draft} : (i, d) ∈ Draft.kept schema false 0 settings ↔
      (i, d) ∈ c.fields ∧ d.omitted schema 0 i = false := by
    rw [Draft.mem_kept, order.mem_iff]
    rfl
  rw [mem_stored, List.mem_map]
  constructor
  · rintro ⟨⟨i, d⟩, member, rfl⟩
    obtain ⟨asked, stays⟩ := kept.mp member
    rcases mem_fields.mp asked with same | same | ⟨_, present, same⟩ | ⟨_, present, same⟩ | same <;> cases same
    · exact .inl ⟨rfl, mana.mp stays⟩
    · exact .inr (.inl ⟨rfl, hp.mp stays⟩)
    · exact .inr (.inr (.inl ⟨rfl, by rw [present]; rfl⟩))
    · exact .inr (.inr (.inr (.inl ⟨rfl, by rw [present]; rfl⟩)))
    · exact .inr (.inr (.inr (.inr ⟨rfl, type.mp stays⟩)))
  · rintro (⟨rfl, other⟩ | ⟨rfl, other⟩ | ⟨rfl, present⟩ | ⟨rfl, present⟩ | ⟨rfl, other⟩)
    · exact ⟨_, kept.mpr ⟨mem_fields.mpr (.inl rfl), mana.mpr other⟩, rfl⟩
    · exact ⟨_, kept.mpr ⟨mem_fields.mpr (.inr (.inl rfl)), hp.mpr other⟩, rfl⟩
    · obtain ⟨text, given⟩ := Option.isSome_iff_exists.mp present
      exact ⟨_, kept.mpr ⟨mem_fields.mpr (.inr (.inr (.inl ⟨text, given, rfl⟩))), rfl⟩, rfl⟩
    · obtain ⟨bytes, given⟩ := Option.isSome_iff_exists.mp present
      exact ⟨_, kept.mpr ⟨mem_fields.mpr (.inr (.inr (.inr (.inl ⟨bytes, given, rfl⟩)))), rfl⟩, rfl⟩
    · exact ⟨_, kept.mpr ⟨mem_fields.mpr (.inr (.inr (.inr (.inr rfl)))), type.mpr other⟩, rfl⟩

/-- There are as many entries as the last field that is stored asks for. -/
private theorem lt_slots {i : Nat} (member : i ∈ c.stored) : i < c.slots := by
  rw [slots]
  cases found : c.stored.max? with
  | none => simp [List.max?_eq_none_iff.mp found] at member
  | some last => exact Nat.lt_succ_of_le ((List.max?_eq_some_iff.mp found).2 i member)

private theorem slots_cases (c : Character) : c.slots = 0 ∨ c.slots - 1 ∈ c.stored := by
  rw [slots]
  cases found : c.stored.max? with
  | none => exact .inl rfl
  | some last => exact .inr (List.max?_eq_some_iff.mp found).1

/-- Each field that is set takes a word, since only the last one is smaller. -/
private theorem objectEnd_eq {a : TableArgs} (same : a.schema = schema) (table : a.table = 0)
    {x₀ x₁ x₂ x₃ x₄ : Option Setting} (settings : a.settings.toList = [x₀, x₁, x₂, x₃, x₄]) {start : Nat}
    (aligned : offsetSize ∣ start) : a.objectEnd start = start +
      (x₀.isSome.toNat + x₁.isSome.toNat + x₂.isSome.toNat + x₃.isSome.toNat + x₄.isSome.toNat + 1) *
        offsetSize := by
  have here (x : Option Setting) (used : Nat) {i : Nat} {f : FieldDef} (field : schema.field? 0 i = some f) :
      a.endAfter (x, i) used = if x.isSome then
        usedAfter used (schema.inlineWidth f.type) (schema.inlineAlignment f.type) else used := by
    rw [TableArgs.endAfter, same, table, field]
    cases x <;> rfl
  have word (x : Option Setting) (used : Nat) {i : Nat} {f : FieldDef} (field : schema.field? 0 i = some f)
      (width : schema.inlineWidth f.type = offsetSize) (alignment : schema.inlineAlignment f.type = offsetSize) :
      padded (a.endAfter (x, i) used) = padded used + x.isSome.toNat * offsetSize := by
    rw [here x used field, width, alignment, usedAfter_four]
    cases x with
    | none => simp
    | some x =>
      simp [padded_eq, offsetSize]
      omega
  have last : padded (a.endAfter (x₄, 4) start) = start + x₄.isSome.toNat * offsetSize := by
    rw [here x₄ start rfl]
    change padded (if x₄.isSome then usedAfter start 1 1 else start) = _
    rw [usedAfter_of_dvd (by decide) (Nat.one_dvd _)]
    cases x₄ <;> simp [padded_eq, offsetSize] at aligned ⊢ <;> omega
  have fields : padded (a.fieldEnd start 0) = start + (x₀.isSome.toNat + x₁.isSome.toNat + x₂.isSome.toNat +
      x₃.isSome.toNat + x₄.isSome.toNat) * offsetSize := by
    rw [TableArgs.fieldEnd, settings]
    change padded (a.endAfter (x₀, 0) (a.endAfter (x₁, 1) (a.endAfter (x₂, 2) (a.endAfter (x₃, 3)
      (a.endAfter (x₄, 4) start))))) = _
    rw [word x₀ _ rfl rfl rfl, word x₁ _ rfl rfl rfl, word x₂ _ rfl rfl rfl, word x₃ _ rfl rfl rfl, last]
    simp only [offsetSize]
    omega
  rw [TableArgs.objectEnd, usedAfter_four, Nat.add_mul, Nat.one_mul, ← Nat.add_assoc, ← fields]
  simp only [padded_eq, offsetSize]
  omega

/-- The table is as large as its fields are many. -/
private theorem objectEnd_stored {a : TableArgs} (same : a.schema = schema) (table : a.table = 0)
    (size : a.settings.size = 5)
    (present : ∀ i, (∃ x, a.settings[i]? = some (some x)) ↔ i ∈ c.stored) {start : Nat}
    (aligned : offsetSize ∣ start) :
    a.objectEnd start = start + (c.stored.length + 1) * offsetSize := by
  obtain ⟨x₀, x₁, x₂, x₃, x₄, settings⟩ : ∃ x₀ x₁ x₂ x₃ x₄, a.settings.toList = [x₀, x₁, x₂, x₃, x₄] := by
    have length : a.settings.toList.length = 5 := size
    match settings : a.settings.toList, length with
    | [x₀, x₁, x₂, x₃, x₄], _ => exact ⟨x₀, x₁, x₂, x₃, x₄, rfl⟩
  have isSome {i : Nat} {x : Option Setting} (found : a.settings.toList[i]? = some x) {p : Bool}
      (stored : i ∈ c.stored ↔ p) : x.isSome = p := by
    rw [Bool.eq_iff_iff, ← stored, ← present, ← Array.getElem?_toList, found]
    simp [Option.isSome_iff_exists]
  rw [settings] at isSome
  obtain ⟨mana, hp, name, inventory, type⟩ : x₀.isSome = decide (c.mana ≠ standard.mana) ∧
      x₁.isSome = decide (c.hp ≠ standard.hp) ∧ x₂.isSome = c.name.isSome ∧
        x₃.isSome = c.inventory.isSome ∧ x₄.isSome = decide (c.type ≠ standard.type) := by
    refine ⟨isSome (i := manaField) rfl ?_, isSome (i := hpField) rfl ?_, isSome (i := nameField) rfl ?_,
      isSome (i := inventoryField) rfl ?_, isSome (i := typeField) rfl ?_⟩ <;>
      simp [mem_stored, manaField, hpField, nameField, inventoryField, typeField]
  have counted (p₀ p₁ p₂ p₃ p₄ : Bool) : (([(manaField, p₀), (hpField, p₁), (nameField, p₂), (inventoryField, p₃),
      (typeField, p₄)].filter (·.2)).map (·.1)).length =
        p₀.toNat + p₁.toNat + p₂.toNat + p₃.toNat + p₄.toNat := by
    revert p₀ p₁ p₂ p₃ p₄
    decide
  rw [objectEnd_eq same table settings aligned, mana, hp, name, inventory, type, ← counted]
  rfl

private theorem stored_of_flat {fields : List (Nat × Draft)} (flat : ∀ e ∈ fields, e.2.Flat) :
    (fields.map fun e => (e.1, e.2.stored schema false)) = fields := by
  refine (List.map_congr_left fun e member => ?_).trans (List.map_id fields)
  obtain ⟨i, d⟩ := e
  cases flat _ member <;> rw [Draft.stored] <;> rfl

/-- A character is built in front of its name and its inventory. -/
private theorem build_takes {settings : List (Nat × Draft)} (order : settings.Perm c.fields) :
    ((TableDraft.mk 0 settings).build schema).Takes (withCapacity 0)
      (c.blocks + (c.stored.length + 1) * offsetSize + (c.slots + 2) * slotSize) := by
  have flat : ∀ e ∈ settings, e.2.Flat := fun e member => c.fields_flat e (order.mem_iff.mp member)
  have sum : (settings.map fun e => e.2.space).sum = c.blocks := (order.map _).sum_eq.trans c.sum_fields
  obtain ⟨known, distinct, typed, each⟩ := settable_of_perm order
  have firm := Construction.start_firm schema (.zeros 0 .standard)
  have builds := Construction.setEach_builds schema_valid settings firm distinct typed each
    (TableArgs.blank_holds _ known) (by simp)
  have sets := setEach_takes schema settings withCapacity_spacious (Nat.dvd_zero _) flat (.blank schema 0)
  rw [sum, show (withCapacity 0).used.bytes.length = 0 from rfl, Nat.zero_add] at sets
  rw [TableDraft.build]
  refine sets.bind (by omega) fun a b₁ ran spacious₁ used => ?_
  obtain ⟨h, continues, holds⟩ := builds.of_ok ran
  have unforced : b₁.forceDefaults = false := continues.follows.forceDefaults
  rw [List.nil_append, show (Construction.start (.zeros 0 .standard)).builder.forceDefaults = false from rfl,
    stored_of_flat flat] at holds
  have present (i : Nat) : (∃ x, (a.stored false).settings[i]? = some (some x)) ↔ i ∈ c.stored :=
    (holds.stored_iff false).trans (mem_kept_iff order)
  have fits := holds.fits typed
  have size : (a.stored false).settings.size = 5 := by
    obtain ⟨t, found, size⟩ := (fits.stored false).table
    rw [TableArgs.stored_table, holds.table] at found
    cases found
    exact size
  have objectEnd := objectEnd_stored (a := a.stored false) holds.schema holds.table size present
    (used ▸ c.dvd_blocks)
  have takes := createTable_takes schema_valid.filled fits continues.firm.builder spacious₁ (fun i f field => ?_)
    (unforced ▸ rfl) ?_ (fun i x set => lt_slots ((present i).mp ⟨x, set⟩))
    (c.slots_cases.imp_right fun member => (present _).mpr member)
  · rwa [objectEnd, used] at takes
  · rw [holds.table] at field
    rcases i with _ | _ | _ | _ | _ | i <;> cases field <;> decide
  · have few : c.stored.length ≤ 5 := by
      rw [stored, List.length_map]
      exact List.length_filter_le _ _
    rw [TableArgs.inlineSize, objectEnd]
    simp only [offsetSize, maxInline]
    omega

/-- Whatever the order of its fields, a character is built and finished in its space. -/
private theorem buffer_takes {settings : List (Nat × Draft)} (order : settings.Perm c.fields) :
    Takes ((TableDraft.mk 0 settings).build schema >>= fun table => finish table none) (withCapacity 0)
      c.space := by
  have aligned := c.dvd_blocks
  have finished : usedAfter (c.blocks + (c.stored.length + 1) * offsetSize + (c.slots + 2) * slotSize)
      offsetSize offsetSize = c.space := by
    rw [usedAfter_four, space]
    simp only [padded_eq, offsetSize, vtableHeader, slotSize] at aligned ⊢
    omega
  refine (build_takes order).bind (finished ▸ le_usedAfter _ _ _) fun r b₁ _ spacious₁ used => ?_
  rw [← finished, ← used]
  exact finish_takes spacious₁ r none

/-- However a character is encoded, its buffer holds it and is of its space, but for padding at the end that is cut
off. If no buffer is as large, it is refused for its size. -/
theorem EncodedAs.storedIn_or_exceeds {result : Except BuildError Buffer} (encoded : c.EncodedAs result) :
    (maxBufferSize < c.space ∧
      ∃ requested, result = .error (.bufferTooLarge requested) ∧ maxBufferSize < requested ∧ requested ≤ c.space) ∨
    (c.space ≤ maxBufferSize ∧ ∃ b position, result = .ok b ∧ c.StoredIn b position ∧
      b.size ≤ c.space ∧ c.space < b.size + offsetSize) := by
  have cases := encoded.storedIn_or_limit
  obtain ⟨settings, order, rfl⟩ := encoded.exists_draft
  have takes := buffer_takes order
  rcases cases with ⟨e, failed, limit⟩ | ⟨b, position, built, stored⟩
  · left
    unfold TableDraft.buffer at failed ⊢
    dsimp only at failed ⊢
    cases ran : runFrom (withCapacity 0) ((TableDraft.mk 0 settings).build schema >>= fun t => finish t none) with
    | mk outcome b' =>
      rw [ran] at failed
      cases outcome with
      | ok f => cases failed
      | error e' =>
        cases failed
        obtain ⟨m, rfl, large, least⟩ := takes.fails _ _ ran limit
        exact ⟨Nat.lt_of_lt_of_le large least, m, rfl, large, least⟩
  · right
    obtain ⟨r, b₁, f, b₂, ran₁, ran₂, rfl⟩ := TableDraft.buffer_eq_ok_iff.mp built
    have firm := Construction.start_firm schema (.zeros 0 .standard)
    obtain ⟨h, continues, _⟩ :=
      (Construction.build_builds schema_valid _ firm (settable_of_perm order)).of_ok ran₁
    obtain ⟨rfl, done, _⟩ := continues.firm.finish ran₂
    obtain ⟨spacious, used⟩ := takes.uses _ _ (runFrom_bind_eq_ok_iff.mpr ⟨r, b₁, ran₁, ran₂⟩)
    have small := done.sound.small
    have pad := spacious.trailingPad
    have size := size_data b₂
    exact ⟨by omega, _, position, built, stored, by omega, by omega⟩

end Character
end FlatTable

import FlatTable.Proofs.Builder.Limits

/-! How many bytes steps of building use. In a storage that doubles they fail for want of room only where no
buffer is large enough for these. -/
namespace FlatTable
open Layout

/-- If this is for want of room, then because more is asked for than a buffer holds, and `n` bytes would be
enough. -/
def BuildError.Exceeds (n : Nat) (e : BuildError) : Prop :=
  e.IsLimit → ∃ m, e = .bufferTooLarge m ∧ maxBufferSize < m ∧ m ≤ n

theorem BuildError.Exceeds.mono {k n : Nat} {e : BuildError} (h : e.Exceeds k) (le : k ≤ n) :
    e.Exceeds n := by
  intro limit
  obtain ⟨m, same, large, bound⟩ := h limit
  exact ⟨m, same, large, Nat.le_trans bound le⟩

namespace Builder

/-- A builder whose storage doubles until no buffer can be larger, and that has aligned nothing to more than
four bytes. -/
structure Spacious (b : Builder) : Prop where
  growth : b.growth = .standard
  size : b.free.size + b.used.size = 0 ∨ ∃ k ≤ 31, b.free.size + b.used.size = 2 ^ k
  minAlign : b.minAlign ≤ offsetSize
  trailingPad : b.trailingPad < offsetSize

theorem withCapacity_spacious : (withCapacity 0).Spacious := ⟨rfl, .inl rfl, by decide, by decide⟩

variable {b b' : Builder}

/-- A storage that is not larger than a buffer is doubled. -/
private theorem Spacious.answer (spacious : b.Spacious)
    (small : b.free.size + b.used.size ≤ maxBufferSize) :
    ∃ front, b.growth.answer b.requests (b.free.size + b.used.size) = .ok front ∧
      ∃ k ≤ 31, b.free.size + front.bytes.length + b.used.size = 2 ^ k := by
  have doubled : ∃ k ≤ 31, Growth.doubled (b.free.size + b.used.size) = 2 ^ k := by
    rcases spacious.size with none | ⟨k, bound, same⟩
    · exact ⟨0, by decide, by rw [none]; rfl⟩
    · have below : k ≠ 31 := by
        rintro rfl
        rw [same] at small
        exact absurd small (by decide)
      have positive := Nat.two_pow_pos k
      refine ⟨k + 1, by omega, ?_⟩
      simp only [Growth.doubled]
      omega
  obtain ⟨k, bound, doubled⟩ := doubled
  have limit : 2 ^ k ≤ maxBufferSize + 1 := Nat.pow_le_pow_right (by decide) bound
  rw [spacious.growth]
  refine ⟨_, if_neg (by omega), k, bound, ?_⟩
  rw [← doubled]
  simp only [Growth.doubled, List.length_cons, List.length_replicate]
  omega

/-- There is room for what a buffer has room for. -/
private theorem makeRoom_spacious (want : Nat) (b : Builder) (spacious : b.Spacious)
    (small : b.used.size + want ≤ maxBufferSize) :
    (makeRoom want b).1 = .ok () ∧ (makeRoom want b).2.Spacious := by
  fun_induction makeRoom want b with
  | case1 b short size answer =>
    obtain ⟨_, given, _⟩ := spacious.answer (by omega)
    cases answer.symm.trans given
  | case2 b short front answer ih =>
    obtain ⟨_, given, doubled⟩ := spacious.answer (by omega)
    obtain rfl := Except.ok.inj (answer.symm.trans given)
    simp only [List.unattach_reverse, List.unattach_attach] at ih
    refine ih ⟨spacious.growth, .inr ?_, spacious.minAlign, spacious.trailingPad⟩ small
    simpa only [Block.append, List.length_reverse] using doubled
  | case3 b enough => exact ⟨rfl, spacious⟩

end Builder

namespace Build
variable {α β : Type} {b : Builder} {k n : Nat}

/-- The steps use bytes up to distance `n` from the end, or fail where no buffer is as large. -/
structure Takes (steps : Build α) (b : Builder) (n : Nat) : Prop where
  fails : FailsWith (BuildError.Exceeds n) steps b
  uses : ∀ a b', runFrom b steps = (.ok a, b') → b'.Spacious ∧ b'.used.bytes.length = n

namespace Takes
variable {steps : Build α} {f : α → Build β}

theorem of_pure {a : α} (spacious : b.Spacious) (used : b.used.bytes.length = n) :
    Takes (pure a) b n :=
  ⟨.of_pure a, fun _ _ ran => (runFrom_pure_eq_ok_iff.mp ran).2 ▸ ⟨spacious, used⟩⟩

theorem of_throw {e : BuildError} (other : ¬ e.IsLimit) : Takes (throw e : Build α) b n :=
  ⟨.of_throw fun limit => absurd limit other, fun _ _ ran => absurd ran not_runFrom_throw_eq_ok⟩

theorem of_modify {change : Builder → Builder} (spacious : (change b).Spacious)
    (used : (change b).used.bytes.length = n) : Takes (modify change : Build PUnit) b n :=
  ⟨.of_modify change, fun _ _ ran => (Prod.mk.inj ran).2 ▸ ⟨spacious, used⟩⟩

theorem get_bind {f : Builder → Build β} (h : Takes (f b) b n) : Takes (get >>= f) b n :=
  ⟨h.fails.get_bind, h.uses⟩

theorem bind (first : Takes steps b k) (le : k ≤ n)
    (next : ∀ a b', runFrom b steps = (.ok a, b') → b'.Spacious → b'.used.bytes.length = k →
      Takes (f a) b' n) : Takes (steps >>= f) b n where
  fails := (first.fails.mono fun _ h => h.mono le).bind fun a b' ran =>
    (next a b' ran (first.uses a b' ran).1 (first.uses a b' ran).2).fails
  uses a b' ran := by
    obtain ⟨a₁, b₁, ran₁, ran⟩ := runFrom_bind_eq_ok_iff.mp ran
    obtain ⟨spacious, used⟩ := first.uses a₁ b₁ ran₁
    exact (next a₁ b₁ ran₁ spacious used).uses a b' ran

theorem throw_bind {e : BuildError} (other : ¬ e.IsLimit) : Takes ((throw e : Build α) >>= f) b n :=
  (of_throw (n := 0) other).bind (Nat.zero_le n) fun _ _ ran => absurd ran not_runFrom_throw_eq_ok

end Takes
end Build

namespace Builder
open Build
variable {b b' : Builder} {n : Nat}

/-! ### Small steps -/

/-- What is claimed is taken from what is free. -/
private theorem runFrom_claim (spacious : b.Spacious) {want : Nat}
    (small : b.used.size + want ≤ maxBufferSize) :
    ∃ free requests old, runFrom b (claim want) = (.ok old, { b with free, requests }) ∧
      old.length = want ∧ ∀ used : Block, used.size = want + b.used.size →
        Spacious { b with free, requests, used } := by
  obtain ⟨made, grown⟩ := makeRoom_spacious want b spacious small
  obtain ⟨free, requests, same⟩ := makeRoom_snd want b
  have room : want ≤ (makeRoom want b).2.free.size := le_of_makeRoom made
  rw [same] at grown room
  change want ≤ free.size at room
  have counted := free.size_eq
  refine ⟨free.drop want, requests, (free.bytes.take want).reverse, ?_, ?_, fun used longer => ?_⟩
  · have whole : makeRoom want b = (.ok (), { b with free, requests }) := Prod.ext made same
    change runFrom b (if maxBufferSize < b.used.size + want then _ else _) = _
    rw [if_neg (Nat.not_lt.mpr small), whole]
    rfl
  · rw [List.length_reverse, List.length_take]
    omega
  · have total : (free.drop want).size + used.size = free.size + b.used.size := by
      change free.size - want + used.size = _
      omega
    exact ⟨grown.growth, by rw [total]; exact grown.size, grown.minAlign, grown.trailingPad⟩

/-- As many bytes are put in front as have been claimed. -/
private theorem claim_takes (spacious : b.Spacious) {want : Nat} (bytes : List UInt8 → List UInt8)
    (length : ∀ old, old.length = want → (bytes old).length = want) :
    Takes (claim want >>= fun old => modify fun b => { b with used := b.used.push (bytes old) }) b
      (b.used.bytes.length + want) := by
  have size := b.used.size_eq
  by_cases large : maxBufferSize < b.used.size + want
  · have refused : runFrom b (claim want) = (.error (.bufferTooLarge (b.used.size + want)), b) := by
      change runFrom b (if maxBufferSize < b.used.size + want then _ else _) = _
      rw [if_pos large]
      rfl
    refine ⟨FailsWith.bind ?_ fun _ _ _ => .of_modify _, fun _ b' ran => ?_⟩
    · intro e b' ran
      cases refused.symm.trans ran
      exact fun _ => ⟨_, rfl, large, by omega⟩
    · obtain ⟨_, _, ran, _⟩ := runFrom_bind_eq_ok_iff.mp ran
      cases refused.symm.trans ran
  · obtain ⟨free, requests, old, claimed, counted, spacious'⟩ := runFrom_claim spacious (Nat.le_of_not_lt large)
    have pushed := length old counted
    have ran (f : List UInt8 → Build Unit) := runFrom_bind_of_ok claimed f
    refine ⟨fun e b' failed => ?_, fun _ b' done => ?_⟩
    · rw [ran] at failed
      cases failed
    · rw [ran] at done
      cases done
      refine ⟨spacious' _ (congrArg (· + b.used.size) pushed), ?_⟩
      change (bytes old ++ b.used.bytes).length = _
      rw [List.length_append, pushed, Nat.add_comm]

theorem push_takes (spacious : b.Spacious) (bytes : List UInt8) :
    (push bytes).Takes b (b.used.bytes.length + bytes.length) :=
  claim_takes spacious (fun _ => bytes) fun _ _ => rfl

theorem reserve_takes (spacious : b.Spacious) (count : Nat) :
    (reserve count).Takes b (b.used.bytes.length + count) :=
  claim_takes spacious id fun _ => id

theorem align_takes (spacious : b.Spacious) {length alignment : Nat} (divides : alignment ∣ 8)
    (small : alignment ≤ offsetSize) :
    (align length alignment).Takes b
      (b.used.bytes.length + padding (b.used.bytes.length + length) alignment) := by
  have size := b.used.size_eq
  have less := padding_lt (b.used.bytes.length + length) divides
  have raised : Spacious { b with minAlign := max b.minAlign alignment } :=
    ⟨spacious.growth, spacious.size, Nat.max_le.mpr ⟨spacious.minAlign, small⟩, spacious.trailingPad⟩
  unfold align
  refine Takes.bind (.of_modify raised rfl) (Nat.le_add_right _ _) fun _ b₁ ran _ _ => .get_bind ?_
  cases ran
  dsimp only
  rw [size]
  by_cases fits : padding (b.used.bytes.length + length) alignment = 0
  · rw [if_neg (not_not.mpr fits), fits]
    exact .of_pure raised rfl
  · have pushed := push_takes raised (List.replicate (padding (b.used.bytes.length + length) alignment) 0)
    rw [List.length_replicate] at pushed
    rw [if_pos fits]
    refine pushed.bind (Nat.le_refl _) fun _ b₂ _ spacious₂ used => ?_
    split
    · refine .of_modify ⟨spacious₂.growth, spacious₂.size, spacious₂.minAlign, ?_⟩ used
      exact Nat.lt_of_lt_of_le less small
    · exact .of_pure spacious₂ used

/-- Padding to an alignment and then writing. -/
theorem store_takes (spacious : b.Spacious) {length alignment : Nat} {bytes : List UInt8}
    (divides : alignment ∣ 8) (small : alignment ≤ offsetSize) (same : bytes.length = length) :
    Takes (align length alignment >>= fun _ => push bytes) b
      (usedAfter b.used.bytes.length length alignment) := by
  subst same
  rw [usedAfter, ← Nat.add_assoc]
  refine (align_takes spacious divides small).bind (Nat.le_add_right _ _) fun _ b₁ _ spacious₁ used => ?_
  exact used ▸ push_takes spacious₁ bytes

theorem pushWord_takes (spacious : b.Spacious) (n : Nat) :
    (pushWord n).Takes b (usedAfter b.used.bytes.length offsetSize offsetSize) :=
  store_takes spacious (by decide) (Nat.le_refl _) (Bytes.length_encode _ _)

theorem pushReference_takes (spacious : b.Spacious) (rev : Nat) :
    (pushReference rev).Takes b (usedAfter b.used.bytes.length offsetSize offsetSize) := by
  unfold pushReference
  rw [usedAfter, ← Nat.add_assoc]
  refine (align_takes spacious (by decide) (Nat.le_refl _)).bind (Nat.le_add_right _ _)
    fun _ b₁ _ spacious₁ used => .get_bind ?_
  dsimp only
  split
  · exact .of_throw id
  · have pushed := push_takes spacious₁ (Bytes.encode offsetSize (b₁.used.size + offsetSize - rev))
    rwa [Bytes.length_encode, used] at pushed

theorem place_takes (spacious : b.Spacious) (kind : ObjectKind) :
    (place kind).Takes b b.used.bytes.length := by
  refine Takes.get_bind (Takes.bind (.of_modify ?_ rfl) (Nat.le_refl _) fun _ _ _ spacious₁ used =>
    .of_pure spacious₁ used)
  exact ⟨spacious.growth, spacious.size, spacious.minAlign, spacious.trailingPad⟩

theorem checkPlaced_takes (spacious : b.Spacious) (p : Placed) :
    (checkPlaced p).Takes b b.used.bytes.length where
  fails := checkPlaced_fails fun _ limit => absurd limit id
  uses _ _ ran := by
    obtain ⟨rfl, _⟩ := (checkPlaced_does p).of_ok ran
    exact ⟨spacious, rfl⟩

/-- What follows when bytes have been written at a multiple of an alignment. -/
private theorem store_bind_takes {α : Type} (spacious : b.Spacious) {length alignment : Nat} {bytes : List UInt8}
    (divides : alignment ∣ 8) (small : alignment ≤ offsetSize) (same : bytes.length = length)
    (le : usedAfter b.used.bytes.length length alignment ≤ n) {f : Unit → Build α}
    (next : ∀ b', b'.Spacious → b'.used.bytes.length = usedAfter b.used.bytes.length length alignment →
      (f ()).Takes b' n) : Takes (align length alignment >>= fun _ => push bytes >>= f) b n := by
  rw [← bind_assoc]
  exact (store_takes spacious divides small same).bind le fun _ b' _ => next b'

/-! ### Strings and vectors -/

/-- An object behind its length. -/
private theorem block_takes (spacious : b.Spacious) {length alignment : Nat} {bytes : List UInt8}
    (divides : alignment ∣ 8) (small : alignment ≤ offsetSize) (same : bytes.length = length) (count : Nat)
    (kind : ObjectKind) :
    Takes (align length alignment >>= fun _ => push bytes >>= fun _ => pushWord count >>= fun _ => place kind) b
      (usedAfter (usedAfter b.used.bytes.length length alignment) offsetSize offsetSize) := by
  refine store_bind_takes spacious divides small same (le_usedAfter _ _ _) fun b₁ spacious₁ used => ?_
  rw [← used]
  refine (pushWord_takes spacious₁ count).bind (Nat.le_refl _) fun _ b₂ _ spacious₂ used => ?_
  exact used ▸ place_takes spacious₂ kind

theorem createString_takes (spacious : b.Spacious) (text : String) :
    (createString text).Takes b (usedAfter (usedAfter b.used.bytes.length
      ((Text.encodeUtf8 text).length + 1) offsetSize) offsetSize offsetSize) :=
  block_takes spacious (by decide) (Nat.le_refl _) (by rw [List.length_append]; rfl) _ _

theorem createVector_takes (spacious : b.Spacious) {t : ScalarType} (small : t.width ≤ offsetSize)
    {items : List Value} (typed : ∀ v ∈ items, v.type = t) :
    (createVector t items).Takes b (usedAfter (usedAfter b.used.bytes.length
      (items.length * t.width) offsetSize) offsetSize offsetSize) := by
  have length : (items.flatMap Value.bytes).length = items.length * t.width :=
    length_flatMap fun v member => v.length_bytes.trans (congrArg ScalarType.width (typed v member))
  have none : (items.find? fun v => v.type != t) = none :=
    List.find?_eq_none.mpr fun v member => by simp [typed v member]
  unfold createVector
  rw [none]
  dsimp only
  rw [Nat.max_eq_right small, length]
  exact block_takes spacious (by decide) (Nat.le_refl _) length _ _

/-! ### Tables -/

section
variable {a : TableArgs} {s : Schema}

/-- Writing a setting that is not left out. -/
private theorem pushSetting_takes (spacious : b.Spacious) (schema : a.schema = s) {t : TableDef} {i : Nat}
    {f : FieldDef} {x : Setting} (field : t.fields[i]? = some f) (fits : x.Fits s f.type)
    (small : s.inlineAlignment f.type ≤ offsetSize) (kept : b.forceDefaults = false → ¬ Omitted a i x) :
    (pushSetting a t i x).Takes b
      (usedAfter b.used.bytes.length (s.inlineWidth f.type) (s.inlineAlignment f.type)) := by
  have written {steps : Build Unit} (takes : steps.Takes b
      (usedAfter b.used.bytes.length (s.inlineWidth f.type) (s.inlineAlignment f.type))) :
      Takes (steps >>= fun _ => pure true) b
        (usedAfter b.used.bytes.length (s.inlineWidth f.type) (s.inlineAlignment f.type)) :=
    takes.bind (Nat.le_refl _) fun _ b' _ spacious' used => .of_pure spacious' used
  have divides := Setting.inlineAlignment_dvd_eight fits
  unfold pushSetting
  cases x with
  | scalar v =>
    obtain ⟨width, alignment⟩ := Setting.inlineWidth_of_scalar fits
    refine Takes.get_bind ?_
    split
    · rename_i omitted
      rw [Bool.and_eq_true] at omitted
      exact absurd ⟨v, rfl, omitted.1⟩ (kept (by simpa using omitted.2))
    · rw [alignment] at divides small
      refine written ?_
      rw [width, alignment]
      exact store_takes spacious divides small v.length_bytes
  | reference p =>
    obtain ⟨width, alignment⟩ := Setting.inlineWidth_of_accepts fits
    refine written ?_
    rw [width, alignment]
    exact pushReference_takes spacious p.rev
  | struct values =>
    obtain ⟨d, struct, types⟩ := fits
    obtain ⟨width, alignment⟩ := Setting.inlineWidth_of_structOf? struct
    have found : t.fields[i]?.bind (fun f => TableArgs.structOf? a.schema f.type) = some d := by
      rw [field, schema, Option.bind_some, struct]
    dsimp only
    rw [found]
    rw [alignment] at divides small
    refine written ?_
    rw [width, alignment]
    exact store_takes spacious divides small (length_structBytes types)

private theorem le_foldl_endAfter (a : TableArgs) (entries : List (Option Setting × Nat)) (used : Nat) :
    used ≤ entries.foldl (fun used entry => a.endAfter entry used) used := by
  induction entries generalizing used with
  | nil => exact Nat.le_refl _
  | cons entry entries ih =>
    have first : used ≤ a.endAfter entry used := by
      unfold TableArgs.endAfter
      split
      · exact le_usedAfter _ _ _
      · exact Nat.le_refl _
    exact Nat.le_trans first (ih _)

/-- Writing fields of which none is left out. -/
private theorem pushSettings_takes (filled : s.Filled) (fits : a.Fits s) {t : TableDef}
    (table : s.tables[a.table]? = some t) {forced : Bool} (whole : a.Whole forced)
    (small : ∀ (i : Nat) f, s.field? a.table i = some f → s.inlineAlignment f.type ≤ offsetSize)
    (rest : List (Option Setting × Nat)) :
    ∀ {b : Builder} {written : List (Nat × Nat)},
      (∀ x i, (some x, i) ∈ rest → a.settings[i]? = some (some x)) → b.Sound → b.Spacious →
        b.forceDefaults = forced → (pushSettings a t rest written).Takes b
          (rest.foldl (fun used entry => a.endAfter entry used) b.used.bytes.length) := by
  induction rest with
  | nil => exact fun _ _ spacious _ => .of_pure spacious rfl
  | cons entry rest ih =>
    intro b written settings sound spacious isForced
    obtain ⟨setting, i⟩ := entry
    have later (x : Setting) (j : Nat) (member : (some x, j) ∈ rest) :=
      settings x j (List.mem_cons_of_mem _ member)
    cases setting with
    | none => exact ih later sound spacious isForced
    | some x =>
      have set := settings x i List.mem_cons_self
      obtain ⟨f, field, _, holds⟩ := fits.setting i x set
      have field' : t.fields[i]? = some f := by
        rwa [Schema.field?, table, Option.bind_some] at field
      have here : a.endAfter (some x, i) b.used.bytes.length =
          usedAfter b.used.bytes.length (s.inlineWidth f.type) (s.inlineAlignment f.type) := by
        rw [TableArgs.endAfter, fits.schema, field]
      unfold pushSettings
      rw [List.foldl_cons, here]
      refine (pushSetting_takes spacious fits.schema field' holds (small i f field) fun unforced =>
        whole i x set (isForced ▸ unforced)).bind (le_foldl_endAfter a rest _) fun stored b₁ ran spacious₁ used => ?_
      obtain ⟨⟨front, grown⟩, _⟩ :=
        (pushSetting_does filled fits.schema sound field' holds (Nat.le_refl _)).of_ok ran
      have sound₁ := grown.sound sound
      have isForced₁ := grown.forceDefaults.trans isForced
      rw [← used]
      cases stored with
      | true => exact .get_bind (ih later sound₁ spacious₁ isForced₁)
      | false => exact ih later sound₁ spacious₁ isForced₁

/-- A vtable is written in front, and the distance to it among what is used. -/
private theorem pushVtable_takes (spacious : b.Spacious) (object : Nat) (entries : List Nat) :
    (pushVtable object entries).Takes b (usedAfter b.used.bytes.length (entries.length * slotSize) slotSize) := by
  unfold pushVtable
  split
  · exact .of_throw id
  · have length : (entries.flatMap (Bytes.encode slotSize)).length = entries.length * slotSize :=
      length_flatMap fun _ _ => Bytes.length_encode _ _
    refine store_bind_takes spacious (by decide) (by decide) length (Nat.le_refl _)
      fun b₁ spacious₁ used => .get_bind ?_
    have size (pos : Nat) (bytes : List UInt8) : (b₁.used.overwrite pos bytes).size = b₁.used.size := by
      rw [Block.overwrite]
      split <;> rfl
    refine .of_modify ⟨spacious₁.growth, ?_, spacious₁.minAlign, spacious₁.trailingPad⟩ ?_
    · dsimp only
      rw [size]
      exact spacious₁.size
    · dsimp only
      rw [← Block.size_eq, size, Block.size_eq, used]

private theorem checkSettings_takes (spacious : b.Spacious) (settings : List (Option Setting)) :
    (settings.forM checkSetting).Takes b b.used.bytes.length where
  fails := checkSettings_fails fun _ _ _ limit => absurd limit id
  uses _ _ ran := by
    obtain ⟨rfl, _⟩ := (checkSettings_does settings).of_ok ran
    exact ⟨spacious, rfl⟩

/-- Where nothing is left out the entries end with that of the last field. -/
private theorem FieldsLaid.length_eq {start slots : Nat} {forced : Bool} {written : List (Nat × Nat)}
    (laid : b.FieldsLaid a start forced a.settings.toList.zipIdx written) (whole : a.Whole forced) (object : Nat)
    (before : ∀ (i : Nat) x, a.settings[i]? = some (some x) → i < slots)
    (last : slots = 0 ∨ ∃ x, a.settings[slots - 1]? = some (some x)) :
    (slotsFrom object 0 written).length = slots := by
  rcases laid.length_slotsFrom whole object with rfl | ⟨i, x, set, greatest, length⟩
  · rcases last with zero | ⟨x, set⟩
    · exact zero.symm
    · obtain ⟨_, member⟩ := laid.exists_written whole set
      cases member
  · have least := before i x set
    rcases last with zero | ⟨y, set'⟩
    · omega
    · have := greatest _ y set'
      omega

/-- A table of which nothing is left out is written behind its vtable, which has entries up to the last field that
is set. -/
private theorem createTable_takes_whole (filled : s.Filled) (fits : a.Fits s) (sound : b.Sound)
    (spacious : b.Spacious) (whole : a.Whole b.forceDefaults)
    (small : ∀ (i : Nat) f, s.field? a.table i = some f → s.inlineAlignment f.type ≤ offsetSize)
    (inside : a.inlineSize b.used.bytes.length ≤ maxInline) {slots : Nat}
    (before : ∀ (i : Nat) x, a.settings[i]? = some (some x) → i < slots)
    (last : slots = 0 ∨ ∃ x, a.settings[slots - 1]? = some (some x)) :
    (createTable a).Takes b (a.objectEnd b.used.bytes.length + (slots + 2) * slotSize) := by
  obtain ⟨t, known, _⟩ := fits.table
  have room : b.used.bytes.length ≤ a.fieldEnd b.used.bytes.length 0 := by
    have le := le_foldl_endAfter a a.settings.toList.zipIdx.reverse b.used.bytes.length
    rwa [List.foldl_reverse] at le
  have reserved : a.objectEnd b.used.bytes.length = a.fieldEnd b.used.bytes.length 0 +
      padding (a.fieldEnd b.used.bytes.length 0 + offsetSize) offsetSize + offsetSize := by
    rw [TableArgs.objectEnd, usedAfter, Nat.add_assoc]
  unfold createTable
  rw [fits.schema, known]
  dsimp only
  refine (checkSettings_takes spacious _).bind (by omega) fun _ b₀ checked _ _ => ?_
  obtain ⟨rfl, _⟩ := (checkSettings_does _).of_ok checked
  apply Takes.get_bind
  have pushes : (pushSettings a t a.settings.toList.zipIdx.reverse []).Takes b₀
      (a.fieldEnd b₀.used.bytes.length 0) := by
    have pushes := @pushSettings_takes a s filled fits t known _ whole small a.settings.toList.zipIdx.reverse b₀ []
      (fun x i member => ?_) sound spacious rfl
    · rwa [List.foldl_reverse] at pushes
    · rwa [List.mem_reverse, List.mem_zipIdx_iff_getElem?, Array.getElem?_toList] at member
  refine pushes.bind (by omega) fun written b₁ ran spacious₁ used₁ => ?_
  obtain ⟨_, _, laid⟩ := (pushAll_does filled fits known sound).of_ok ran
  refine (align_takes spacious₁ (by decide) (Nat.le_refl _)).bind (by rw [used₁]; omega)
    fun _ b₂ _ spacious₂ used₂ => ?_
  refine (reserve_takes spacious₂ offsetSize).bind (by rw [used₂, used₁]; omega) fun _ b₃ _ spacious₃ used₃ => ?_
  apply Takes.get_bind
  have object : b₃.used.bytes.length = a.objectEnd b₀.used.bytes.length := by
    rw [used₃, used₂, used₁, reserved]
  have aligned : offsetSize ∣ a.objectEnd b₀.used.bytes.length := dvd_usedAfter _ _ (by decide)
  have length := laid.length_eq whole b₃.used.size before last
  rw [b₀.used.size_eq, b₃.used.size_eq]
  rw [b₃.used.size_eq] at length
  rw [if_neg (by rw [object]; exact Nat.not_lt.mpr inside)]
  split
  · exact .throw_bind id
  have vtable := pushVtable_takes spacious₃ b₃.used.bytes.length ((vtableHeader +
    (slotsFrom b₃.used.bytes.length 0 written).length * slotSize) :: (b₃.used.bytes.length - b₀.used.bytes.length) ::
      slotsFrom b₃.used.bytes.length 0 written)
  have even : slotSize ∣ a.objectEnd b₀.used.bytes.length + (slots + 2) * slotSize :=
    Nat.dvd_add (Nat.dvd_trans (by decide) aligned) (Nat.dvd_mul_left _ _)
  rw [List.length_cons, List.length_cons, length, object, usedAfter_of_dvd (by decide) even, ← object] at vtable
  rw [← object, length]
  refine vtable.bind (Nat.le_refl _) fun _ b₄ _ spacious₄ used₄ => ?_
  refine Takes.bind (.of_modify ?_ used₄) (Nat.le_refl _) fun _ b₅ _ spacious₅ used₅ => .of_pure spacious₅ used₅
  exact ⟨spacious₄.growth, spacious₄.size, spacious₄.minAlign, spacious₄.trailingPad⟩

/-- A table takes the bytes of its fields and the distance to its vtable, and those of the vtable, as far as they
are stored. -/
theorem createTable_takes (filled : s.Filled) (fits : a.Fits s) (sound : b.Sound) (spacious : b.Spacious)
    (small : ∀ (i : Nat) f, s.field? a.table i = some f → s.inlineAlignment f.type ≤ offsetSize)
    {stored : TableArgs} (isStored : stored = a.stored b.forceDefaults)
    (inside : stored.inlineSize b.used.bytes.length ≤ maxInline) {slots : Nat}
    (before : ∀ (i : Nat) x, stored.settings[i]? = some (some x) → i < slots)
    (last : slots = 0 ∨ ∃ x, stored.settings[slots - 1]? = some (some x)) :
    (createTable a).Takes b (stored.objectEnd b.used.bytes.length + (slots + 2) * slotSize) := by
  subst isStored
  have takes := createTable_takes_whole filled (fits.stored b.forceDefaults) sound spacious (a.stored_whole _)
    (by rwa [TableArgs.stored_table]) inside before last
  have same := runFrom_createTable_stored filled fits sound
  refine ⟨?_, ?_⟩
  · rw [FailsWith, ← same]
    exact takes.fails
  · rw [← same]
    exact takes.uses

end

/-- The root's reference and the identifier come to lie in front of what has been padded to four bytes. -/
theorem finish_takes (spacious : b.Spacious) (root : Ref .table) (identifier : Option Identifier) :
    (finish root identifier).Takes b (usedAfter b.used.bytes.length
      (offsetSize + ((identifier.map Identifier.bytes).getD []).length) offsetSize) := by
  generalize isTotal : usedAfter b.used.bytes.length
    (offsetSize + ((identifier.map Identifier.bytes).getD []).length) offsetSize = total
  have aligned : offsetSize ∣ total := isTotal ▸ dvd_usedAfter _ _ (by decide)
  have reference {b₁ : Builder} (spacious₁ : b₁.Spacious) (used : b₁.used.bytes.length + offsetSize = total) :
      (pushReference root.rev).Takes b₁ total := by
    have takes := pushReference_takes spacious₁ root.rev
    rwa [usedAfter_of_dvd (by decide) (used ▸ aligned), used] at takes
  have pushed : (pushRoot root identifier).Takes b total := by
    unfold pushRoot
    refine (checkPlaced_takes spacious _).bind (isTotal ▸ le_usedAfter _ _ _) fun _ b₀ checked _ _ => ?_
    obtain ⟨rfl, _⟩ := (checkPlaced_does _).of_ok checked
    apply Takes.get_bind
    rw [Nat.max_eq_right spacious.minAlign]
    rw [usedAfter] at isTotal
    refine (align_takes spacious (by decide) (Nat.le_refl _)).bind (by omega) fun _ b₁ _ spacious₁ used => ?_
    cases identifier with
    | none => exact reference spacious₁ (by rw [used, ← isTotal, Nat.add_assoc]; rfl)
    | some identifier =>
      refine (push_takes spacious₁ identifier.bytes).bind ?_ fun _ b₂ _ spacious₂ used₂ =>
        reference spacious₂ ?_
      · rw [used, ← isTotal]
        simp only [Option.map_some, Option.getD_some]
        omega
      · rw [used₂, used, ← isTotal]
        simp only [Option.map_some, Option.getD_some]
        omega
  exact pushed.bind (Nat.le_refl _) fun _ b₁ _ spacious₁ used => .get_bind (.of_pure spacious₁ used)

end Builder
end FlatTable

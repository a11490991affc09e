import FlatTable.Proofs.Arena.Objects

/-! A builder that checks itself writes tables as a builder does. -/
namespace FlatTable
open Layout Build

namespace Builder
variable {α β γ : Type} {b : Builder} {a : TableArgs} {s : Schema}

/-! ### Fields -/

theorem checkSettings_mirrors (settings : List (Option Setting)) :
    b.Mirrors (settings.forM Arena.checkSetting) (settings.forM checkSetting) := by
  induction settings generalizing b with
  | nil => exact .of_pure _
  | cons x settings ih =>
    have first : b.Mirrors (Arena.checkSetting x) (checkSetting x) := by
      cases x with
      | none => exact .of_pure _
      | some x =>
        cases x with
        | scalar v | struct values => exact .of_pure _
        | reference p => exact checkPlaced_mirrors p
    rw [List.forM_eq_forM, List.forM_eq_forM, List.forM_cons, List.forM_cons]
    exact first.bind fun _ _ _ => ih

private theorem pushSetting_mirrors (schema : a.schema = s) {t : TableDef} {i : Nat} {f : FieldDef}
    {x : Setting} (field : t.fields[i]? = some f) (fits : x.Fits s f.type)
    (behind : ∀ p, x = .reference p → b.Behind p.rev) :
    b.Mirrors (Arena.pushSetting a t i x) (pushSetting a t i x) := by
  unfold Arena.pushSetting pushSetting
  cases x with
  | scalar v =>
    refine Mirrors.get_bind ?_
    change b.Mirrors (if (isDefault a.schema a.table i v && !b.forceDefaults) = true then _ else _) _
    split
    · exact .of_pure _
    · exact (pushValue_mirrors v).bind fun _ _ _ => .of_pure _
  | reference p => exact (pushReference_mirrors (behind p rfl)).bind fun _ _ _ => .of_pure _
  | struct values =>
    obtain ⟨d, struct, types⟩ := fits
    dsimp only
    rw [field, Option.bind_some, schema, struct]
    exact (pushStruct_mirrors types).bind fun _ _ _ => .of_pure _

/-- The fields that were written are the same, listed the other way round. -/
private theorem pushSettings_mirrors (filled : s.Filled) (schema : a.schema = s) {t : TableDef}
    {entries : List (Option Setting × Nat)}
    (fits : ∀ x i, (some x, i) ∈ entries → ∃ f, t.fields[i]? = some f ∧ x.Fits s f.type) :
    ∀ (written : List (Nat × Nat)) (b : Builder), b.Sound →
      (∀ p i, (some (.reference p), i) ∈ entries → b.Behind p.rev) →
        b.Mirrors (Arena.pushSettings a t entries written.reverse)
          (List.reverse <$> pushSettings a t entries written) := by
  induction entries with
  | nil => exact fun _ _ _ _ => .of_pure _
  | cons entry rest ih =>
    intro written b sound behind
    obtain ⟨x, i⟩ := entry
    have ih := ih fun x i member => fits x i (List.mem_cons_of_mem _ member)
    have later (p : Placed) (i : Nat) (member : (some (.reference p), i) ∈ rest) :=
      behind p i (List.mem_cons_of_mem _ member)
    cases x with
    | none => exact ih written b sound later
    | some x =>
      obtain ⟨f, field, holds⟩ := fits x i List.mem_cons_self
      have here (p : Placed) (same : x = .reference p) : b.Behind p.rev :=
        behind p i (by rw [same]; exact List.mem_cons_self)
      unfold Arena.pushSettings pushSettings
      rw [map_bind]
      refine (pushSetting_mirrors schema field holds here).bind_does
        (pushSetting_does filled schema sound field holds (Nat.le_refl _)) fun stored b₁ given => ?_
      obtain ⟨⟨front, grown⟩, _⟩ := given
      have later₁ (p : Placed) (i : Nat) (member : (some (.reference p), i) ∈ rest) :=
        (later p i member).kept grown.keeps
      cases stored with
      | true =>
        have next := ih ((i, b₁.used.size) :: written) b₁ (grown.sound sound) later₁
        rw [List.reverse_cons] at next
        change b₁.Mirrors (Arena.usedSpace >>= fun rev =>
            Arena.pushSettings a t rest (written.reverse ++ [(i, rev)]))
          (get >>= fun b => List.reverse <$> pushSettings a t rest ((i, b.used.size) :: written))
        exact Mirrors.usedSpace_bind next
      | false => exact ih _ b₁ (grown.sound sound) later₁

/-! ### The vtable -/

private theorem runFrom_setEntry {a : Arena} {front back : List Nat} {x n i : Nat}
    (index : front.length = i) (small : n < 2 ^ 16) :
    (Arena.setEntry (front ++ x :: back) i n).runFrom a = .ok (.ok (front ++ n :: back), a) := by
  subst index
  have inside : front.length < (front ++ x :: back).length := by
    rw [List.length_append, List.length_cons]
    omega
  unfold Arena.setEntry
  rw [Guarded.runFrom_require_bind inside, Nat.mod_eq_of_lt small, List.set_append_right _ _ (Nat.le_refl _),
    Nat.sub_self, List.set_cons_zero]
  rfl

/-- There are as many entries as it takes for the last of the fields. -/
private theorem foldr_max_slots (object : Nat) {next : Nat} {written : List (Nat × Nat)}
    (sorted : (written.map Prod.fst).Pairwise (· < ·)) (atLeast : ∀ w ∈ written, next ≤ w.1) :
    (written.map fun field => field.1 + 1).foldr max next =
      next + (slotsFrom object next written).length := by
  induction written generalizing next with
  | nil => rfl
  | cons w written ih =>
    obtain ⟨first, rest⟩ := List.pairwise_cons.mp sorted
    have least : next ≤ w.1 := atLeast w List.mem_cons_self
    have later : (written.map fun field => field.1 + 1).foldr max (w.1 + 1) =
        w.1 + 1 + (slotsFrom object (w.1 + 1) written).length :=
      ih rest fun v found => first v.1 (List.mem_map.mpr ⟨v, found, rfl⟩)
    have pulled : (written.map fun field => field.1 + 1).foldr max (max (w.1 + 1) next) =
        max (w.1 + 1) ((written.map fun field => field.1 + 1).foldr max next) := by
      rw [Nat.max_comm, List.foldr_assoc, Nat.max_comm]
    rw [Nat.max_eq_left (by omega), later] at pulled
    rw [List.map_cons, List.foldr_cons, ← pulled, slotsFrom]
    simp only [List.length_append, List.length_replicate, List.length_cons]
    omega

private theorem slotCount_reverse (object : Nat) {written : List (Nat × Nat)}
    (sorted : (written.map Prod.fst).Pairwise (· < ·)) :
    Arena.slotCount written.reverse = (slotsFrom object 0 written).length := by
  have last := foldr_max_slots object sorted fun _ _ => Nat.zero_le _
  rw [Arena.slotCount, List.map_reverse, List.foldl_reverse, ← Nat.zero_add (slotsFrom _ _ _).length,
    ← last]
  exact congrArg (fun f => (written.map _).foldr f 0) (funext₂ fun n m => Nat.max_comm m n)

/-- Over zeros the entries of the fields are set where the vtable has them. -/
private theorem runFrom_entries {arena : Arena} {object c : Nat} {written : List (Nat × Nat)}
    (sorted : (written.map Prod.fst).Pairwise (· < ·))
    (within : ∀ w ∈ written, w.2 ≤ object ∧ object - w.2 < 2 ^ 16) :
    ∀ {next : Nat} {front : List Nat}, front.length = c + next → (∀ w ∈ written, next ≤ w.1) →
      Guarded.runFrom arena (written.reverse.foldlM (fun vtable (id, rev) => do
          Arena.setEntry vtable (c + id) (← Arena.minus object rev))
        (front ++ List.replicate (slotsFrom object next written).length 0)) =
      .ok (.ok (front ++ slotsFrom object next written), arena) := by
  induction written with
  | nil => exact fun _ _ => rfl
  | cons w written ih =>
    intro next front start atLeast
    obtain ⟨first, rest⟩ := List.pairwise_cons.mp sorted
    obtain ⟨⟨behind, small⟩, later⟩ := List.forall_mem_cons.mp within
    have least : next ≤ w.1 := atLeast w List.mem_cons_self
    generalize gap : front ++ List.replicate (w.1 - next) 0 = before
    have length : before.length = c + w.1 := by
      rw [← gap, List.length_append, List.length_replicate]
      omega
    have zeros : front ++ List.replicate (slotsFrom object next (w :: written)).length 0 =
        before ++ [0] ++ List.replicate (slotsFrom object (w.1 + 1) written).length 0 := by
      rw [← gap, slotsFrom, List.length_append, List.length_replicate, List.length_cons, List.append_assoc,
        List.append_assoc, ← List.replicate_append_replicate, Nat.add_comm _ 1,
        ← List.replicate_append_replicate]
      rfl
    have slots : front ++ slotsFrom object next (w :: written) =
        before ++ (object - w.2) :: slotsFrom object (w.1 + 1) written := by
      rw [← gap, slotsFrom, List.append_assoc]
    have starts : (before ++ [0]).length = c + (w.1 + 1) := by
      rw [List.length_append, length]
      rfl
    -- The last field is set first: its entries are there when the one of `w` is set in front of them.
    have set := ih rest later starts fun v found => first v.1 (List.mem_map.mpr ⟨v, found, rfl⟩)
    rw [zeros, slots, List.reverse_cons, List.foldlM_append, Guarded.runFrom_bind_of_ok set,
      List.foldlM_cons, List.append_assoc]
    change Guarded.runFrom arena ((Arena.minus object w.2 >>= fun d =>
      Arena.setEntry (before ++ 0 :: slotsFrom object (w.1 + 1) written) (c + w.1) d) >>= pure) = _
    rw [bind_pure, Guarded.runFrom_minus_bind behind, runFrom_setEntry length small]

private theorem runFrom_vtableOf {arena : Arena} {object size vtableSize : Nat}
    {written : List (Nat × Nat)} (sorted : (written.map Prod.fst).Pairwise (· < ·))
    (within : ∀ w ∈ written, w.2 ≤ object ∧ object - w.2 < 2 ^ 16) (small : size < 2 ^ 16)
    (few : vtableSize < 2 ^ 16) :
    (Arena.vtableOf object size vtableSize written.reverse).runFrom arena =
      .ok (.ok (vtableSize :: size :: slotsFrom object 0 written), arena) := by
  have header : [vtableSize, size].length = vtableHeader / slotSize + 0 := by
    rw [List.length_cons, List.length_singleton, vtableHeader, slotSize]
  have entries := @runFrom_entries arena _ _ _ sorted within _ _ header fun _ _ => Nat.zero_le _
  unfold Arena.vtableOf
  rw [slotCount_reverse object sorted]
  generalize (slotsFrom object 0 written).length = count at *
  have zeros : List.replicate (vtableHeader / slotSize + count) 0 = [] ++ 0 :: 0 :: List.replicate count 0 := by
    rw [← List.replicate_append_replicate]
    rfl
  have first : Guarded.runFrom arena (Arena.setEntry ([] ++ 0 :: 0 :: List.replicate count 0) 0 vtableSize) =
      .ok (.ok ([vtableSize] ++ 0 :: List.replicate count 0), arena) := runFrom_setEntry rfl few
  have second : Guarded.runFrom arena (Arena.setEntry ([vtableSize] ++ 0 :: List.replicate count 0) 1 size) =
      .ok (.ok ([vtableSize, size] ++ List.replicate count 0), arena) := runFrom_setEntry rfl small
  rw [zeros, Guarded.runFrom_bind_of_ok first, Guarded.runFrom_bind_of_ok second, entries]
  rfl

/-! ### Tables -/

private theorem reserve_mirrors (count : Nat) :
    b.Mirrors (discard (Arena.makeSpace count)) (reserve count) := by
  unfold reserve
  change b.Mirrors (Arena.makeSpace count >>= fun _ => pure ()) _
  unfold Mirrors
  rw [Guarded.runFrom_bind, runFrom_makeSpace, Build.runFrom_bind]
  rcases runFrom b (claim count) with ⟨_ | _, _⟩ <;> rfl

/-- The four bytes at `object` from the end are written anew. -/
private theorem overwrite_mirrors {object : Nat} {bytes : List UInt8} (inFront : object ≤ b.used.size)
    (room : offsetSize ≤ object) (four : bytes.length = offsetSize) :
    b.Mirrors (Arena.write (b.free.size + b.used.size - object)
        (b.free.size + b.used.size - object + offsetSize) bytes)
      (modify fun b' => { b' with used := b.used.overwrite (b.used.size - object) bytes }) := by
  generalize start : b.used.size - object = pos
  have inside : pos + bytes.length ≤ b.used.size := by omega
  have size := b.used.size_eq
  have split : b.arena.bytes = b.free.bytes.reverse ++ b.used.bytes.take pos ++
      ((b.used.bytes.drop pos).take bytes.length ++ b.used.bytes.drop (pos + bytes.length)) := by
    rw [← List.drop_drop, List.take_append_drop, List.append_assoc, List.take_append_drop]
    rfl
  have length : (b.free.bytes.reverse ++ b.used.bytes.take pos).length =
      b.free.size + b.used.size - object := by
    rw [List.length_append, List.length_reverse, List.length_take, ← b.free.size_eq]
    omega
  have written := runFrom_write split length (by rw [four])
    (by rw [List.length_take, List.length_drop]; omega)
  have same : (b.used.overwrite pos bytes).bytes = b.used.bytes.take pos ++ bytes ++
      b.used.bytes.drop (pos + bytes.length) := by
    rw [Block.overwrite, dif_pos inside]
  unfold Mirrors
  rw [written]
  refine congrArg (fun bytes => Except.ok (Except.ok (), { b.arena with bytes })) ?_
  change _ = b.free.bytes.reverse ++ (b.used.overwrite pos bytes).bytes
  rw [same, List.append_assoc, List.append_assoc]

private theorem pushVtable_mirrors {object size : Nat} {entries : List Nat}
    (checked : Contract.checkVtable entries = .ok ()) (inFront : object ≤ b.used.size)
    (room : offsetSize ≤ object) (length : entries.length * slotSize = size) :
    b.Mirrors (Arena.pushVtable object size entries) (pushVtable object entries) := by
  have typed : ∀ part ∈ entries.map (Bytes.encode slotSize), part.length = slotSize := by
    intro part member
    obtain ⟨n, _, rfl⟩ := List.mem_map.mp member
    exact Bytes.length_encode slotSize n
  have whole : (entries.flatMap (Bytes.encode slotSize)).length = size := by
    rw [← length, length_flatMap fun n _ => Bytes.length_encode slotSize n]
  unfold Arena.pushVtable pushVtable
  rw [checked, Arena.enforce, pure_bind, length]
  refine (align_mirrors _ _).bind_does (align_does (by decide)) fun _ b₁ aligned => ?_
  refine (Mirrors.store whole fun free requests old enough => ?_).bind_does (push_does _)
    fun _ b₂ pushed => Mirrors.usedSpace_bind ?_
  · rw [List.flatMap_def]
    exact .inRow typed (by rw [enough, whole, ← length, List.length_map])
  have longer : object ≤ b₂.used.size := by
    rw [b₂.used.size_eq, pushed.1.length, aligned.1.length, ← b.used.size_eq]
    omega
  have above : object ≤ b₂.arena.bytes.length := by
    rw [length_arena]
    omega
  change Guarded.runFrom b₂.arena (Arena.minus b₂.arena.bytes.length object >>= _) = _
  rw [Guarded.runFrom_minus_bind above, Guarded.runFrom_minus_bind longer, length_arena]
  exact overwrite_mirrors longer room (Bytes.length_encode _ _)

theorem createTable_mirrors (filled : s.Filled) (fits : a.Fits s) (sound : b.Sound)
    (behind : ∀ p ∈ b.placed, b.Behind p.rev) :
    b.Mirrors (Arena.createTable a) (createTable a) := by
  obtain ⟨t, known, size⟩ := fits.table
  have fitting (x : Setting) (i : Nat) (member : (some x, i) ∈ a.settings.toList.zipIdx.reverse) :=
    fits.exists_field_of_mem known (List.mem_reverse.mp member)
  unfold Arena.createTable createTable
  rw [fits.schema, known]
  dsimp only
  refine (checkSettings_mirrors _).bind_does (checkSettings_does _) fun _ b₀ given => ?_
  obtain ⟨rfl, placed⟩ := given
  refine Mirrors.usedSpace_bind ?_
  have settings : b₀.Mirrors (Arena.pushSettings a t a.settings.toList.zipIdx.reverse [])
      (List.reverse <$> pushSettings a t a.settings.toList.zipIdx.reverse []) :=
    pushSettings_mirrors filled fits.schema fitting [] b₀ sound fun p i member =>
      behind p (placed p (List.fst_mem_of_mem_zipIdx (List.mem_reverse.mp member)))
  refine settings.map_bind_does (pushAll_does filled fits known sound) fun written b₁ given => ?_
  obtain ⟨⟨front, grown⟩, _, laid⟩ := given
  refine (align_mirrors _ _).bind_does (align_does (by decide)) fun _ b₂ given => ?_
  obtain ⟨aligned, _, _⟩ := given
  refine (reserve_mirrors _).bind_does (reserve_does offsetSize) fun _ b₃ given => ?_
  obtain ⟨old, length, reserved, _⟩ := given
  refine Mirrors.usedSpace_bind ?_
  have longer : b₃.used.bytes.length = offsetSize + b₂.used.bytes.length := by
    rw [reserved.length, length]
  have room : b₀.used.bytes.length + offsetSize ≤ b₃.used.bytes.length := by
    rw [longer, aligned.length, grown.length]
    omega
  have inFront (w : Nat × Nat) (found : w ∈ written) :
      b₀.used.bytes.length < w.2 ∧ w.2 + offsetSize ≤ b₃.used.bytes.length := by
    have between := laid.between w found
    rw [longer, aligned.length]
    omega
  rw [slotCount_reverse b₃.used.size laid.sorted, b₀.used.size_eq, b₃.used.size_eq]
  refine Mirrors.minus_bind (by omega) ?_
  by_cases large : maxInline < b₃.used.bytes.length - b₀.used.bytes.length
  · rw [if_pos large, if_pos large]
    exact .throw_bind _
  rw [if_neg large, if_neg large]
  by_cases many : maxInline <
      vtableHeader + (slotsFrom b₃.used.bytes.length 0 written).length * slotSize
  · rw [if_pos many, if_pos many]
    exact .throw_bind _
  rw [if_neg many, if_neg many]
  -- Sizes and distances that are not refused fit 16 bits.
  simp only [maxInline] at large many
  have within (w : Nat × Nat) (found : w ∈ written) :
      w.2 ≤ b₃.used.bytes.length ∧ b₃.used.bytes.length - w.2 < 2 ^ 16 := by
    have := inFront w found
    omega
  refine Mirrors.eval_bind (runFrom_vtableOf laid.sorted within (by omega) (by omega)) ?_
  refine (pushVtable_mirrors (checkVtable_written room inFront) (by rw [b₃.used.size_eq]) (by omega)
    ?_).bind fun _ _ _ => (Mirrors.of_modify rfl).bind fun _ _ _ => .of_pure _
  simp only [List.length_cons, vtableHeader, slotSize]
  omega

end Builder
end FlatTable

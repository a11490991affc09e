import FlatTable.Proofs.Builder.Settings
import FlatTable.Proofs.Builder.Stored

/-! What steps come to where the storage has room for all of them: nothing has to grow. -/
namespace FlatTable
open Layout Build

theorem Block.eq_of_bytes {block block' : Block} (same : block.bytes = block'.bytes) : block = block' := by
  obtain ⟨bytes, size, rfl⟩ := block
  obtain ⟨bytes', size', rfl⟩ := block'
  cases same
  rfl

namespace Builder
variable {fill : UInt8} {n minAlign : Nat} {used : List UInt8} {placed : List Placed}

/-- A builder with `n` free bytes, all of them `fill`, that has padded nothing at the end. -/
def roomy (fill : UInt8) (n : Nat) (used : List UInt8) (minAlign : Nat) (placed : List Placed) : Builder :=
  ⟨.ofList (List.replicate n fill), .ofList used, .standard, 0, minAlign, false, 0, placed⟩

@[simp] theorem roomy_size : (roomy fill n used minAlign placed).used.size = used.length := rfl

theorem ofStorage_replicate (fill : UInt8) (n : Nat) :
    ofStorage ⟨List.replicate n fill, .standard, 0⟩ = roomy fill n [] 1 [] := by
  rw [ofStorage, List.reverse_replicate]
  rfl

private theorem claim_roomy {want : Nat} (room : want ≤ n) (small : used.length + want ≤ maxBufferSize) :
    runFrom (roomy fill n used minAlign placed) (claim want) =
      (.ok (List.replicate want fill), roomy fill (n - want) used minAlign placed) := by
  have made : makeRoom want (roomy fill n used minAlign placed) =
      (.ok (), roomy fill n used minAlign placed) := by
    have enough : ¬ (roomy fill n used minAlign placed).free.size < want := by
      change ¬ (List.replicate n fill).length < want
      rw [List.length_replicate]
      omega
    rw [makeRoom, dif_neg enough]
  have dropped : (Block.ofList (List.replicate n fill)).drop want =
      .ofList (List.replicate (n - want) fill) := Block.eq_of_bytes (List.drop_replicate)
  rw [claim]
  change runFrom _ (if maxBufferSize < used.length + want then _ else _) = _
  rw [if_neg (by omega), made]
  change (Except.ok ((List.replicate n fill).take want).reverse, _) = _
  rw [List.take_replicate, List.reverse_replicate, Nat.min_eq_left room]
  simp only [roomy, dropped]

theorem push_roomy {bytes : List UInt8} (room : bytes.length ≤ n)
    (small : used.length + bytes.length ≤ maxBufferSize) :
    runFrom (roomy fill n used minAlign placed) (push bytes) =
      (.ok (), roomy fill (n - bytes.length) (bytes ++ used) minAlign placed) := by
  rw [push, runFrom_bind, claim_roomy room small]
  have pushed : (Block.ofList used).push bytes = .ofList (bytes ++ used) := Block.eq_of_bytes rfl
  change (Except.ok (), _) = _
  simp only [roomy, pushed]

theorem reserve_roomy {want : Nat} (room : want ≤ n) (small : used.length + want ≤ maxBufferSize) :
    runFrom (roomy fill n used minAlign placed) (reserve want) =
      (.ok (), roomy fill (n - want) (List.replicate want fill ++ used) minAlign placed) := by
  rw [reserve, runFrom_bind, claim_roomy room small]
  have pushed : (Block.ofList used).push (List.replicate want fill) =
      .ofList (List.replicate want fill ++ used) := Block.eq_of_bytes rfl
  change (Except.ok (), _) = _
  simp only [roomy, pushed]

theorem align_roomy {length alignment : Nat} (divides : alignment ∣ 8)
    (even : alignment ∣ used.length + length) :
    runFrom (roomy fill n used minAlign placed) (align length alignment) =
      (.ok (), roomy fill n used (max minAlign alignment) placed) := by
  have fits : padding (used.length + length) alignment = 0 := padding_of_dvd divides even
  rw [align]
  change runFrom _ (if padding (used.length + length) alignment ≠ 0 then _ else _) = _
  rw [fits, if_neg (by decide)]
  rfl

theorem pushReference_roomy {rev : Nat} (room : offsetSize ≤ n) (aligned : offsetSize ∣ used.length)
    (small : used.length + offsetSize ≤ maxBufferSize) (positive : 0 < rev) (behind : rev ≤ used.length) :
    runFrom (roomy fill n used minAlign placed) (pushReference rev) =
      (.ok (), roomy fill (n - offsetSize) (Bytes.encode offsetSize (used.length + offsetSize - rev) ++ used)
        (max minAlign offsetSize) placed) := by
  have checked : Contract.checkReference rev (used.length + offsetSize) = .ok () := by
    rw [Contract.checkReference, if_neg (by omega), if_pos (by omega)]
  have length := Bytes.length_encode offsetSize (used.length + offsetSize - rev)
  rw [pushReference, runFrom_bind, align_roomy (by decide) (Nat.dvd_add aligned (Nat.dvd_refl _))]
  dsimp only
  rw [runFrom_get_bind, roomy_size, checked]
  dsimp only
  rw [push_roomy (by rwa [length]) (by rwa [length]), length]

/-- A table of one struct that no table has room for is given up when its place has been taken. -/
theorem createTable_tooLarge {a : TableArgs} {t : TableDef} {d : StructDef} {values : List Value}
    (found : a.schema.tables[a.table]? = some t) (set : a.settings = #[some (.struct values)])
    (struct : (t.fields[0]?.bind fun f => TableArgs.structOf? a.schema f.type) = some d)
    (types : values.map Value.type = d.members.map Member.type) (aligned : offsetSize ∣ d.size)
    (large : maxInline < d.size + offsetSize) (room : d.size + offsetSize ≤ n)
    (small : d.size + offsetSize ≤ maxBufferSize) :
    runFrom (roomy fill n [] minAlign placed) (createTable a) =
      (.error (.tableTooLarge t.name (d.size + offsetSize)),
        roomy fill (n - d.size - offsetSize) (List.replicate offsetSize fill ++ structBytes d values)
          (max (max minAlign d.alignment) offsetSize) placed) := by
  have length := length_structBytes types
  have pushed : runFrom (roomy fill n [] minAlign placed) (pushSetting a t 0 (.struct values)) =
      (.ok true, roomy fill (n - d.size) (structBytes d values) (max minAlign d.alignment) placed) := by
    rw [pushSetting, struct]
    dsimp only
    have aligns : runFrom (roomy fill n [] minAlign placed) (align d.size d.alignment) =
        (.ok (), roomy fill n [] (max minAlign d.alignment) placed) :=
      align_roomy d.alignment_dvd_eight (by rw [List.length_nil, Nat.zero_add]; exact d.alignment_dvd_size)
    have pushes := @push_roomy fill n (max minAlign d.alignment) [] placed (structBytes d values) (by omega)
      (by rw [List.length_nil]; omega)
    rw [length, List.append_nil] at pushes
    have both : runFrom (roomy fill n [] minAlign placed) (pushStruct d values) = _ :=
      (runFrom_bind_of_ok aligns _).trans pushes
    exact runFrom_bind_of_ok both _
  have settings : runFrom (roomy fill n [] minAlign placed)
      (pushSettings a t a.settings.toList.zipIdx.reverse []) = (.ok [(0, (structBytes d values).length)],
        roomy fill (n - d.size) (structBytes d values) (max minAlign d.alignment) placed) := by
    rw [set]
    exact runFrom_bind_of_ok pushed _
  have checks : runFrom (roomy fill n [] minAlign placed) (a.settings.toList.forM checkSetting) =
      (.ok (), roomy fill n [] minAlign placed) := by
    rw [set]
    rfl
  have aligns := @align_roomy fill (n - d.size) (max minAlign d.alignment) (structBytes d values) placed
    offsetSize offsetSize (by decide) (by rw [length]; exact Nat.dvd_add aligned (Nat.dvd_refl _))
  have reserves := @reserve_roomy fill (n - d.size) (max (max minAlign d.alignment) offsetSize)
    (structBytes d values) placed offsetSize (by omega) (by omega)
  rw [createTable, found]
  dsimp only
  rw [runFrom_bind_of_ok checks, runFrom_get_bind, runFrom_bind_of_ok settings, runFrom_bind_of_ok aligns,
    runFrom_bind_of_ok reserves, runFrom_get_bind]
  simp only [roomy_size, List.length_append, List.length_replicate, List.length_nil, Nat.sub_zero, length]
  rw [Nat.add_comm offsetSize d.size, if_pos large]
  rfl

/-- A table without fields in front of what has been used. -/
theorem createTable_empty {s : Schema} {id : Nat} {t : TableDef} (found : s.tables[id]? = some t)
    (aligned : offsetSize ∣ used.length) (room : 2 * offsetSize ≤ n)
    (small : used.length + 2 * offsetSize ≤ maxBufferSize) :
    runFrom (roomy fill n used minAlign placed) (createTable ⟨s, id, #[]⟩) =
      (.ok ⟨used.length + offsetSize⟩, roomy fill (n - offsetSize - offsetSize)
        ([4, 0, 4, 0, 4, 0, 0, 0] ++ used) (max minAlign offsetSize)
          (⟨used.length + offsetSize, .table⟩ :: placed)) := by
  have four : offsetSize = 4 := rfl
  have aligns := @align_roomy fill n minAlign used placed offsetSize offsetSize (by decide)
    (Nat.dvd_add aligned (Nat.dvd_refl _))
  have reserves := @reserve_roomy fill n (max minAlign offsetSize) used placed offsetSize (by omega) (by omega)
  have checks : runFrom (roomy fill n used minAlign placed)
      (([] : List (Option Setting)).forM checkSetting) = (.ok (), roomy fill n used minAlign placed) := rfl
  have settings : runFrom (roomy fill n used minAlign placed)
      (pushSettings ⟨s, id, #[]⟩ t [].zipIdx.reverse []) = (.ok [], roomy fill n used minAlign placed) := rfl
  have vtable : runFrom (roomy fill (n - offsetSize) (List.replicate offsetSize fill ++ used)
      (max minAlign offsetSize) placed) (pushVtable (offsetSize + used.length) [4, 4]) =
        (.ok (), roomy fill (n - offsetSize - offsetSize) ([4, 0, 4, 0, 4, 0, 0, 0] ++ used)
          (max minAlign offsetSize) placed) := by
    have grown : (List.replicate offsetSize fill ++ used).length = used.length + offsetSize := by
      rw [List.length_append, List.length_replicate, Nat.add_comm]
    have aligns := @align_roomy fill (n - offsetSize) (max minAlign offsetSize)
      (List.replicate offsetSize fill ++ used) placed (2 * slotSize) slotSize (by decide)
      (by rw [grown]; exact Nat.dvd_trans (by decide) (Nat.dvd_add (Nat.dvd_add aligned (Nat.dvd_refl _)) (Nat.dvd_refl _)))
    have pushes := @push_roomy fill (n - offsetSize) (max (max minAlign offsetSize) slotSize)
      (List.replicate offsetSize fill ++ used) placed [4, 0, 4, 0] (by change 4 ≤ _; omega)
      (by rw [grown]; change _ + 4 ≤ _; omega)
    rw [pushVtable]
    change runFrom _ (align (2 * slotSize) slotSize >>= fun _ => push [4, 0, 4, 0] >>= _) = _
    rw [runFrom_bind_of_ok aligns, runFrom_bind_of_ok pushes, runFrom_get_bind]
    have back : ([4, 0, 4, 0] ++ (List.replicate offsetSize fill ++ used)).length - (offsetSize + used.length) =
        4 := by
      rw [List.length_append, grown, Nat.add_comm used.length, Nat.add_sub_cancel]
      rfl
    have written : (Block.ofList ([4, 0, 4, 0] ++ (List.replicate offsetSize fill ++ used))).overwrite 4
        (Bytes.encode offsetSize 4) = .ofList ([4, 0, 4, 0, 4, 0, 0, 0] ++ used) := by
      refine Block.eq_of_bytes ?_
      rw [Block.overwrite, dif_pos ?_]
      · rfl
      · change 4 + 4 ≤ List.length _
        rw [List.length_append, grown]
        change 4 + 4 ≤ 4 + (used.length + 4)
        omega
    simp only [roomy_size]
    rw [back]
    rw [show max (max minAlign offsetSize) slotSize = max minAlign offsetSize from
      Nat.max_eq_left (Nat.le_trans (by decide) (Nat.le_max_right _ _))]
    change (Except.ok (), (⟨_, Block.overwrite _ 4 _, _, _, _, _, _, _⟩ : Builder)) = _
    rw [show (roomy fill _ _ _ _).used = .ofList _ from rfl, written]
    rfl
  rw [createTable, found]
  dsimp only
  rw [runFrom_bind_of_ok checks, runFrom_get_bind, runFrom_bind_of_ok settings, runFrom_bind_of_ok aligns,
    runFrom_bind_of_ok reserves, runFrom_get_bind]
  simp only [roomy_size, List.length_append, List.length_replicate, Nat.add_sub_cancel]
  rw [if_neg (by decide)]
  change runFrom _ (if maxInline < 4 then _ else pushVtable (offsetSize + used.length) [4, 4] >>= _) = _
  rw [if_neg (by decide)]
  rw [runFrom_bind_of_ok vtable, Nat.add_comm used.length]
  rfl

/-- A root's reference, with nothing padded between it and what has been used. -/
theorem pushRoot_roomy {rev : Nat} (isPlaced : Placed.isAmong ⟨rev, .table⟩ placed) (divides : minAlign ∣ 8)
    (asked : offsetSize ≤ minAlign) (aligned : minAlign ∣ used.length + offsetSize) (room : offsetSize ≤ n)
    (small : used.length + offsetSize ≤ maxBufferSize) (positive : 0 < rev) (behind : rev ≤ used.length) :
    runFrom (roomy fill n used minAlign placed) (pushRoot ⟨rev⟩ none) =
      (.ok (), roomy fill (n - offsetSize)
        (Bytes.encode offsetSize (used.length + offsetSize - rev) ++ used) minAlign placed) := by
  have same : max minAlign offsetSize = minAlign := Nat.max_eq_left asked
  have even : offsetSize ∣ used.length := by
    have divided := dvd_of_le_of_dvd_eight (by decide) divides asked
    exact (Nat.dvd_add_iff_left (Nat.dvd_refl _)).mpr (Nat.dvd_trans divided aligned)
  have checked : runFrom (roomy fill n used minAlign placed) (checkPlaced ⟨rev, .table⟩) =
      (.ok (), roomy fill n used minAlign placed) := by
    rw [checkPlaced, runFrom_get_bind]
    change runFrom _ (if (!Placed.isAmong _ placed) = true then _ else _) = _
    rw [isPlaced]
    rfl
  have aligns := @align_roomy fill n minAlign used placed offsetSize minAlign divides aligned
  have refers := @pushReference_roomy fill n minAlign used placed rev room even small positive behind
  rw [Nat.max_self] at aligns
  rw [same] at refers
  rw [pushRoot]
  change runFrom _ (checkPlaced ⟨rev, .table⟩ >>= _) = _
  rw [runFrom_bind_of_ok checked, runFrom_get_bind]
  change runFrom _ (align offsetSize (max minAlign offsetSize) >>= fun _ => pushReference rev) = _
  rw [same, runFrom_bind_of_ok aligns]
  exact refers

end Builder
end FlatTable

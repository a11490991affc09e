import FlatTable.Proofs.Result
import FlatTable.Proofs.Verify.WellFormed
import FlatTable.Proofs.Padding

/-! The walk accepts exactly the well-formed tables that nest no deeper and are no more than the
limits allow, and its counter counts the tables met. -/
namespace FlatTable
open Layout

theorem ElementType.elementWidth_pos (s : Schema) (e : ElementType) : 0 < s.elementWidth e := by
  unfold Schema.elementWidth
  cases s.elementScalarType? e with
  | none => decide
  | some t => exact t.width_pos

theorem ElementType.elementWidth_le_eight (s : Schema) (e : ElementType) :
    s.elementWidth e ≤ 8 := by
  unfold Schema.elementWidth
  cases s.elementScalarType? e with
  | none => decide
  | some t => exact t.width_le_eight

namespace Walk
variable {w : Walk}

theorem range_eq_ok_iff {position length : Nat} {what : Subject} :
    w.range position length what = .ok () ↔ position + length ≤ w.buffer.size := by
  unfold range
  split <;> simp_all

theorem aligned_eq_ok_iff {position alignment : Nat} {what : Subject} :
    w.aligned position alignment what = .ok () ↔ w.Aligned position alignment := by
  unfold aligned Aligned
  rw [throw_else_eq_ok_iff, Nat.dvd_iff_mod_eq_zero]
  simp

theorem number_eq_ok_iff {position width n : Nat} {what : Subject} :
    w.number position width what = .ok n ↔ w.buffer.nat? position width = some n := by
  unfold number
  split <;> simp_all

/-- What `target` accepts is a reference that leads into the buffer. -/
theorem target_eq_ok_iff {holder target : Nat} :
    w.target holder = .ok target ↔ w.RefersTo holder target := by
  unfold Walk.target
  rw [check_eq_ok_iff, bind_eq_ok_iff, aligned_eq_ok_iff]
  simp only [number_eq_ok_iff, refuse_eq_ok_iff]
  constructor
  · intro given
    obtain ⟨aligned, distance, read, positive, inside, h⟩ := given
    obtain rfl : holder + distance = target := Except.ok.inj h
    exact ⟨aligned, by rw [Buffer.target?, read]; rfl, by omega, by omega, by omega⟩
  · intro given
    obtain ⟨aligned, read, forward, near, inside⟩ := given
    obtain ⟨distance, counted, rfl⟩ := Option.map_eq_some_iff.mp read
    exact ⟨aligned, distance, counted, by omega, by omega, rfl⟩

theorem string_eq_ok_iff {position : Nat} :
    w.string position = .ok () ↔ ∃ bytes, w.StringAt position bytes := by
  unfold Walk.string
  rw [check_eq_ok_iff, bind_eq_ok_iff, aligned_eq_ok_iff]
  simp only [number_eq_ok_iff, check_eq_ok_iff, range_eq_ok_iff, refuse_eq_ok_iff]
  constructor
  · intro given
    obtain ⟨aligned, length, counted, inside, terminated, decodes⟩ := given
    have room : position + offsetSize + length ≤ w.buffer.size := by omega
    obtain ⟨bytes, read, rfl⟩ := Buffer.slice?_of_le room
    refine ⟨bytes, aligned, counted, read, ?_, not_not.mp terminated⟩
    rw [read] at decodes
    cases h : Text.decodeUtf8? bytes with
    | none => simp [h] at decodes
    | some text => rfl
  · intro given
    obtain ⟨bytes, aligned, counted, read, decodes, terminated⟩ := given
    have last := (Array.getElem?_eq_some_iff.mp terminated).1
    refine ⟨aligned, bytes.length, counted, by omega, not_not.mpr terminated, ?_⟩
    rw [read, Option.bind_some, if_neg (by simpa [Option.isSome_iff_ne_none] using decodes)]
    rfl

/-- What `vtable` accepts and returns are a vtable and the two sizes it tells. -/
theorem vtable_eq_ok_iff {position vtable vtableSize size : Nat} :
    w.vtable position = .ok (vtable, vtableSize, size) ↔
      w.VtableAt position vtable vtableSize size := by
  unfold Walk.vtable
  rw [check_eq_ok_iff, check_eq_ok_iff, aligned_eq_ok_iff, range_eq_ok_iff]
  constructor
  · intro given
    obtain ⟨aligned, inside, h⟩ := given
    split at h
    · cases h
    · rename_i found read
      simp only [bind_eq_ok_iff, exists_unit_iff, aligned_eq_ok_iff, number_eq_ok_iff,
        range_eq_ok_iff, refuse_eq_ok_iff] at h
      obtain ⟨vtableAligned, foundSize, vtableCounted, shape, vtableInside, foundTable, counted,
        smallest, tableInside, result⟩ := h
      have divides : slotSize ∣ foundSize := Nat.dvd_of_mod_eq_zero (by omega)
      cases result
      exact ⟨aligned, read, vtableAligned, vtableCounted, divides,
        by omega, vtableInside, counted, by omega, tableInside⟩
  · rintro ⟨aligned, read, vtableAligned, vtableCounted, even, header, vtableInside, counted,
      smallest, inside⟩
    refine ⟨aligned, by omega, ?_⟩
    rw [read]
    simp only [bind_eq_ok_iff, exists_unit_iff, aligned_eq_ok_iff, number_eq_ok_iff,
      range_eq_ok_iff, refuse_eq_ok_iff]
    have odd := Nat.mod_eq_zero_of_dvd even
    exact ⟨vtableAligned, vtableSize, vtableCounted, by omega, vtableInside, size, counted,
      by omega, inside, rfl⟩

/-- Elements that are inside a buffer of a permitted size are never too many for the limit on their
number: the bytes in front of them make up for the last, incomplete element. -/
private theorem length_lt_limit {limit width length position size : Nat} (positive : 0 < width)
    (le : width ≤ 8) (behind : 4 ≤ position) (small : size ≤ limit)
    (inside : position + offsetSize + length * width ≤ size) : length < limit / width := by
  rw [Nat.lt_iff_add_one_le, Nat.le_div_iff_mul_le positive, Nat.add_mul]
  simp only [offsetSize] at inside
  omega

theorem vectorLength_eq_ok_iff {element : ElementType} {position length : Nat}
    (small : w.buffer.size ≤ w.options.maxBufferSize) (behind : 4 ≤ position) :
    w.vectorLength position (w.schema.elementWidth element) = .ok length ↔
      w.VectorAt element position length := by
  unfold Walk.vectorLength
  rw [check_eq_ok_iff, bind_eq_ok_iff, aligned_eq_ok_iff]
  simp only [number_eq_ok_iff, check_eq_ok_iff, range_eq_ok_iff, refuse_eq_ok_iff]
  constructor
  · intro given
    obtain ⟨aligned, found, counted, _, inside, h⟩ := given
    split at h
    · obtain ⟨elements, result⟩ := check_eq_ok_iff.mp h
      cases result
      exact ⟨aligned, counted, inside, fun _ => aligned_eq_ok_iff.mp elements⟩
    · cases h
      exact ⟨aligned, counted, inside, fun positive => absurd positive (by assumption)⟩
  · intro given
    obtain ⟨aligned, counted, inside, elements⟩ := given
    have few := length_lt_limit (ElementType.elementWidth_pos w.schema element)
      (ElementType.elementWidth_le_eight w.schema element) behind small inside
    refine ⟨aligned, length, counted, by omega, inside, ?_⟩
    split
    · exact check_eq_ok_iff.mpr ⟨aligned_eq_ok_iff.mpr (elements (by assumption)), rfl⟩
    · rfl

/-! ### Counting -/

theorem RefersTo.tablesAt {holder target : Nat} (h : w.RefersTo holder target) (id : Nat) :
    w.buffer.tablesAt id [holder] = [(target, id)] := by
  have read : w.buffer.table? holder = some ⟨w.buffer, target⟩ :=
    Buffer.table?_eq_some_iff.mpr ⟨h.read, h.inside, rfl⟩
  simp [Buffer.tablesAt, read]

theorem tablesAt_eq_flatMap (b : Buffer) (id : Nat) (holders : List Nat) :
    b.tablesAt id holders = holders.flatMap fun holder => b.tablesAt id [holder] := by
  induction holders with
  | nil => rfl
  | cons holder holders ih =>
    rw [List.flatMap_cons, ← ih]
    simp only [Buffer.tablesAt, List.filterMap_cons, List.filterMap_nil]
    cases b.table? holder <;> rfl

section
variable {check : Nat → Nat → Nat → Check Nat} {most : Nat} {P : Nat → Nat → Prop}
  {met : Nat → Nat → Nat}
  (nested : ∀ position id, Counts most (check position id) (P position id) (met position id))
include nested

/-- The check of a table that a reference leads to. -/
private theorem counts_reference (holder id : Nat) :
    Counts most (fun count => do check (← w.target holder) id count)
      ((∃ target, w.RefersTo holder target) ∧
        ∀ c ∈ w.buffer.tablesAt id [holder], P c.1 c.2)
      (((w.buffer.tablesAt id [holder]).map fun c => met c.1 c.2).sum) := by
  refine Counts.congr (Counts.after (S := fun target => P target id)
    (fun _ => target_eq_ok_iff) ?_) ⟨?_, ?_⟩
  · intro target h
    simpa [h.tablesAt id] using nested target id
  · intro given
    obtain ⟨target, h, ok⟩ := given
    exact ⟨⟨target, h⟩, by simpa [h.tablesAt id] using ok⟩
  · intro given
    obtain ⟨⟨target, h⟩, ok⟩ := given
    exact ⟨target, h, by simpa [h.tablesAt id] using ok⟩

private theorem counts_references (holders : List Nat) (id : Nat) :
    Counts most (fun count => holders.foldlM (fun count holder => do
        check (← w.target holder) id count) count)
      ((∀ holder ∈ holders, ∃ target, w.RefersTo holder target) ∧
        ∀ c ∈ w.buffer.tablesAt id holders, P c.1 c.2)
      (((w.buffer.tablesAt id holders).map fun c => met c.1 c.2).sum) := by
  rw [tablesAt_eq_flatMap, sum_map_flatMap]
  apply (Counts.foldlM fun holder _ => counts_reference nested holder id).congr
  simp only [List.mem_flatMap, forall_exists_index, and_imp]
  constructor
  · intro h
    exact ⟨fun holder member => (h holder member).1,
      fun c holder member inAt => (h holder member).2 c inAt⟩
  · intro given holder member
    obtain ⟨refers, ok⟩ := given
    exact ⟨refers holder member, fun c inAt => ok c holder member inAt⟩

/-- The check of a vector that the reference at `holder` leads to. -/
private theorem counts_vector {holder target : Nat} (element : ElementType)
    (small : w.buffer.size ≤ w.options.maxBufferSize) (h : w.RefersTo holder target)
    (behind : 4 ≤ target) :
    Counts most (w.vector check element target)
      ((∃ length, w.VectorAt element target length ∧ w.ElementsAt element target length) ∧
        ∀ c ∈ w.buffer.nestedAt (.vector element) holder, P c.1 c.2)
      (((w.buffer.nestedAt (.vector element) holder).map fun c => met c.1 c.2).sum) := by
  have holders {length : Nat} (v : w.VectorAt element target length) :
      w.buffer.elementHolders holder =
        (List.range length).map fun i => target + offsetSize + i * offsetSize := by
    simp only [Buffer.elementHolders, h.read, v.counted, Option.getD_some]
  refine Counts.congr (Counts.after (fun _ => vectorLength_eq_ok_iff small behind)
    (S := fun length => w.ElementsAt element target length ∧
      ∀ c ∈ w.buffer.nestedAt (.vector element) holder, P c.1 c.2) ?_) ?_
  · intro length v
    cases element with
    | scalar t => exact Counts.pass.congr (by simp [ElementsAt, Buffer.nestedAt])
    | enum id => exact Counts.pass.congr (by simp [ElementsAt, Buffer.nestedAt])
    | string =>
      refine Counts.congr (Counts.after (R := fun _ => w.ElementsAt .string target length)
        (S := fun _ => True) ?_ fun _ _ => Counts.pass) ?_
      · rintro ⟨⟩
        simp only [forM_eq_ok_iff, List.forall_mem_map, List.mem_range, bind_eq_ok_iff,
          target_eq_ok_iff, string_eq_ok_iff, ElementsAt, RefersToString, exists_and_left]
      · simp [Buffer.nestedAt]
    | table id =>
      simp only [Buffer.nestedAt, holders v]
      apply (counts_references nested _ id).congr
      simp only [List.forall_mem_map, List.mem_range, ElementsAt]
  · simp only [← and_assoc, exists_and_right]

/-- The check of what a field refers to, by the type of the field. -/
private theorem counts_stored (holder : Nat) (type : FieldType)
    (small : w.buffer.size ≤ w.options.maxBufferSize) (behind : 4 ≤ holder) :
    Counts most (fun count => match type with
        | .scalar _ | .enum _ | .struct _ => return count
        | .string => do
          w.string (← w.target holder)
          return count
        | .vector element => do w.vector check element (← w.target holder) count
        | .table id => do check (← w.target holder) id count)
      (w.FieldAt type holder ∧ ∀ c ∈ w.buffer.nestedAt type holder, P c.1 c.2)
      (((w.buffer.nestedAt type holder).map fun c => met c.1 c.2).sum) := by
  cases type with
  | scalar t => exact Counts.pass.congr (by simp [FieldAt, Buffer.nestedAt])
  | enum id => exact Counts.pass.congr (by simp [FieldAt, Buffer.nestedAt])
  | struct id => exact Counts.pass.congr (by simp [FieldAt, Buffer.nestedAt])
  | string =>
    refine Counts.congr (Counts.after (S := fun target => ∃ bytes, w.StringAt target bytes)
      (fun _ => target_eq_ok_iff) fun target _ => Counts.congr (Counts.after
        (R := fun _ => ∃ bytes, w.StringAt target bytes) (S := fun _ => True) ?_
        fun _ _ => Counts.pass) ?_) ?_
    · rintro ⟨⟩
      exact string_eq_ok_iff
    · simp
    · simp [FieldAt, RefersToString, Buffer.nestedAt]
  | vector element =>
    refine Counts.congr (Counts.after (fun _ => target_eq_ok_iff) fun target h =>
      counts_vector nested element small h (by have := h.forward; omega)) ⟨?_, ?_⟩
    · intro given
      obtain ⟨target, refers, ⟨length, vector, elements⟩, tables⟩ := given
      exact ⟨⟨target, length, refers, vector, elements⟩, tables⟩
    · intro given
      obtain ⟨⟨target, length, refers, vector, elements⟩, tables⟩ := given
      exact ⟨target, refers, ⟨length, vector, elements⟩, tables⟩
  | table id =>
    exact counts_reference nested holder id

/-- The check of a field whose entry in the vtable is `distance`. -/
private theorem counts_field (position size distance : Nat) (f : FieldDef)
    (small : w.buffer.size ≤ w.options.maxBufferSize) :
    Counts most (w.field check position size f distance)
      (w.FieldWithin position size f.type (position + distance) ∧
        ∀ c ∈ w.buffer.nestedAt f.type (position + distance), P c.1 c.2)
      (((w.buffer.nestedAt f.type (position + distance)).map fun c => met c.1 c.2).sum) := by
  intro count le n
  unfold Walk.field
  rw [refuse_eq_ok_iff, check_eq_ok_iff, aligned_eq_ok_iff]
  constructor
  · intro given
    obtain ⟨bounds, aligned, h⟩ := given
    have behind : 4 ≤ position + distance := by
      simp only [offsetSize] at bounds
      omega
    obtain ⟨⟨field, tables⟩, rest⟩ :=
      (counts_stored nested _ f.type small behind count le n).mp h
    exact ⟨⟨⟨by omega, by omega, aligned, field⟩, tables⟩, rest⟩
  · intro given
    obtain ⟨⟨⟨behind, within, aligned, field⟩, tables⟩, rest⟩ := given
    have behind' : 4 ≤ position + distance := by
      simp only [offsetSize] at behind
      omega
    exact ⟨by omega, aligned,
      (counts_stored nested _ f.type small behind' count le n).mpr ⟨⟨field, tables⟩, rest⟩⟩

end

/-- In a vtable the walk and the readers find the same entries. -/
theorem VtableAt.fieldPosition? {position vtable vtableSize size : Nat}
    (h : w.VtableAt position vtable vtableSize size) (field : Nat) :
    (field < fieldOf vtableSize → ∃ distance,
      w.buffer.nat? (vtable + slotOf field) slotSize = some distance ∧
        w.buffer.fieldPosition? position field =
          if distance = 0 then none else some (position + distance)) ∧
    (fieldOf vtableSize ≤ field → w.buffer.fieldPosition? position field = none) := by
  have known : field < fieldOf vtableSize ↔ slotOf field + slotSize ≤ vtableSize := by
    have := h.header
    simp only [fieldOf, slotOf, vtableHeader, slotSize] at *
    omega
  have first : ¬ slotOf field < vtableHeader := by
    simp only [slotOf]
    omega
  refine ⟨?_, ?_⟩
  · intro lt
    have inVtable := known.mp lt
    obtain ⟨distance, read⟩ := Buffer.nat?_of_le
      (show vtable + slotOf field + slotSize ≤ w.buffer.size by have := h.vtableInside; omega)
    refine ⟨distance, read, ?_⟩
    simp only [Buffer.fieldPosition?, Buffer.slotPosition?, if_neg first, h.read, h.vtableCounted,
      Option.bind_eq_bind, Option.bind_some, if_pos inVtable, read]
  · intro le
    have outside : ¬ slotOf field + slotSize ≤ vtableSize := fun c => by
      have := known.mpr c
      omega
    simp only [Buffer.fieldPosition?, Buffer.slotPosition?, if_neg first, h.read, h.vtableCounted,
      Option.bind_eq_bind, Option.bind_some, if_neg outside]

section
variable {check : Nat → Nat → Nat → Check Nat} {most : Nat} {P : Nat → Nat → Prop}
  {met : Nat → Nat → Nat}
  (nested : ∀ position id, Counts most (check position id) (P position id) (met position id))
include nested

private def nestedOf (b : Buffer) (position : Nat) (x : FieldDef × Nat) : List (Nat × Nat) :=
  ((b.fieldPosition? position x.2).map (b.nestedAt x.1.type)).getD []

/-- The check of one field of a table. -/
private theorem counts_entry {position vtable vtableSize size : Nat}
    (small : w.buffer.size ≤ w.options.maxBufferSize)
    (h : w.VtableAt position vtable vtableSize size) (x : FieldDef × Nat)
    (known : x.2 < fieldOf vtableSize) :
    Counts most (fun count => do
        let distance ← w.number (vtable + slotOf x.2) slotSize .vtable
        if distance = 0 then return count
        w.field check position size x.1 distance count)
      ((∀ holder, w.buffer.fieldPosition? position x.2 = some holder →
          w.FieldWithin position size x.1.type holder) ∧
        ∀ c ∈ nestedOf w.buffer position x, P c.1 c.2)
      (((nestedOf w.buffer position x).map fun c => met c.1 c.2).sum) := by
  obtain ⟨distance, read, place⟩ := (h.fieldPosition? x.2).1 known
  have entry : w.number (vtable + slotOf x.2) slotSize .vtable = .ok distance :=
    number_eq_ok_iff.mpr read
  simp only [entry, ok_bind, nestedOf, place]
  by_cases zero : distance = 0
  · simp only [if_pos zero]
    exact Counts.pass.congr (by simp)
  · simp only [if_neg zero]
    exact (counts_field nested position size distance x.1 small).congr (by simp)

omit nested in
/-- The fields that the vtable has entries for. -/
theorem mem_known {vtableSize : Nat} {t : TableDef} {x : FieldDef × Nat} :
    x ∈ (t.fields.extract 0 (fieldOf vtableSize)).toList.zipIdx ↔
      t.fields[x.2]? = some x.1 ∧ x.2 < fieldOf vtableSize := by
  rw [List.mem_zipIdx_iff_getElem?, Array.toList_extract, List.extract_eq_take_drop,
    List.drop_zero, Nat.sub_zero, List.getElem?_take]
  split <;> simp_all

omit nested in
/-- The fields that the vtable has no entry for refer to nothing. -/
private theorem nested_eq_known {position id vtable vtableSize size : Nat} {t : TableDef}
    (table : w.schema.tables[id]? = some t) (h : w.VtableAt position vtable vtableSize size) :
    w.buffer.nested w.schema position id =
      (t.fields.extract 0 (fieldOf vtableSize)).toList.zipIdx.flatMap
        (nestedOf w.buffer position) := by
  have unknown : ((t.fields.toList.drop (fieldOf vtableSize)).zipIdx
      (t.fields.toList.take (fieldOf vtableSize)).length).flatMap
        (nestedOf w.buffer position) = [] := by
    rw [List.flatMap_eq_nil_iff]
    intro given member
    obtain ⟨f, i⟩ := given
    obtain ⟨far, near, _⟩ := List.mem_zipIdx member
    have absent := (h.fieldPosition? i).2 (by
      simp only [List.length_take, List.length_drop] at far near
      omega)
    simp only [nestedOf, absent, Option.map_none, Option.getD_none]
  calc w.buffer.nested w.schema position id
      = t.fields.toList.zipIdx.flatMap (nestedOf w.buffer position) := by
        simp only [Buffer.nested, table]
        rfl
    _ = (t.fields.toList.take (fieldOf vtableSize) ++
          t.fields.toList.drop (fieldOf vtableSize)).zipIdx.flatMap
            (nestedOf w.buffer position) := by rw [List.take_append_drop]
    _ = (t.fields.toList.take (fieldOf vtableSize)).zipIdx.flatMap
          (nestedOf w.buffer position) := by
        rw [List.zipIdx_append, List.flatMap_append, Nat.zero_add, unknown, List.append_nil]
    _ = _ := by
        rw [Array.toList_extract, List.extract_eq_take_drop, List.drop_zero, Nat.sub_zero]

/-- The check of a table, given that of the tables one level deeper. -/
private theorem counts_tableWith (position id : Nat) (limit : most = w.options.maxTables)
    (small : w.buffer.size ≤ w.options.maxBufferSize) :
    Counts most (w.tableWith check position id)
      (w.TableAt position id ∧ ∀ c ∈ w.buffer.nested w.schema position id, P c.1 c.2)
      (1 + ((w.buffer.nested w.schema position id).map fun c => met c.1 c.2).sum) := by
  subst limit
  intro count le n
  unfold Walk.tableWith
  simp only [refuse_eq_ok_iff, bind_eq_ok_iff]
  cases table : w.schema.tables[id]? with
  | none =>
    have outside : ¬ id < w.schema.tables.size := by simpa using table
    constructor
    · intro given
      obtain ⟨_, _, _, h⟩ := given
      cases h
    · intro given
      obtain ⟨⟨⟨inside, _⟩, _⟩, _⟩ := given
      exact absurd inside outside
  | some t =>
    have exists_id : id < w.schema.tables.size := (Array.getElem?_eq_some_iff.mp table).1
    have field (i : Nat) : w.schema.field? id i = t.fields[i]? := by
      rw [Schema.field?, table, Option.bind_some]
    have loop {vtable vtableSize size : Nat} (v : w.VtableAt position vtable vtableSize size) :=
      Counts.foldlM (l := (t.fields.extract 0 (fieldOf vtableSize)).toList.zipIdx)
        fun x hx => counts_entry nested small v x (mem_known.mp hx).2
    constructor
    · intro given
      obtain ⟨room, ⟨vtable, vtableSize, size⟩, head, fields⟩ := given
      have v := vtable_eq_ok_iff.mp head
      obtain ⟨ok, rfl, fits⟩ := (loop v (count + 1) (by omega) n).mp fields
      rw [nested_eq_known table v, sum_map_flatMap]
      refine ⟨⟨⟨exists_id, vtable, vtableSize, size, v, ?_⟩, ?_⟩,
        by omega, by omega⟩
      · intro i f holder isField place
        by_cases known : i < fieldOf vtableSize
        · exact (ok (f, i) (mem_known.mpr ⟨field i ▸ isField, known⟩)).1 holder place
        · rw [(v.fieldPosition? i).2 (by omega)] at place
          cases place
      · intro c member
        obtain ⟨x, hx, inField⟩ := List.mem_flatMap.mp member
        exact (ok x hx).2 c inField
    · intro given
      obtain ⟨⟨⟨_, vtable, vtableSize, size, v, within⟩, tables⟩, rfl, fits⟩ := given
      rw [nested_eq_known table v] at tables
      rw [nested_eq_known table v, sum_map_flatMap] at fits ⊢
      refine ⟨by omega, ⟨vtable, vtableSize, size⟩, vtable_eq_ok_iff.mpr v, ?_⟩
      refine (loop v (count + 1) (by omega) _).mpr ⟨fun x hx => ⟨?_, ?_⟩, by omega, by omega⟩
      · intro holder place
        exact within x.2 x.1 holder (field x.2 ▸ (mem_known.mp hx).1) place
      · intro c member
        exact tables c (List.mem_flatMap.mpr ⟨x, hx, member⟩)

end

theorem WellFormed.table {position id : Nat} (h : w.WellFormed position id) :
    w.TableAt position id := by
  cases h with
  | intro table nested => exact table

theorem WellFormed.nested {position id : Nat} (h : w.WellFormed position id) {c : Nat × Nat}
    (member : c ∈ w.buffer.nested w.schema position id) : w.WellFormed c.1 c.2 := by
  cases h with
  | intro table nested => exact nested c member

/-- The walk below a table accepts it if it is well formed and the limits are kept, and counts the
tables that it meets. -/
theorem counts_table (small : w.buffer.size ≤ w.options.maxBufferSize) (levels position id : Nat) :
    Counts w.options.maxTables (w.table levels position id)
      (w.WellFormed position id ∧ w.buffer.depth w.schema position id ≤ levels)
      (w.buffer.visits w.schema position id) := by
  induction levels generalizing position id with
  | zero =>
    intro count le n
    rw [Buffer.depth, Buffer.tally_eq]
    constructor
    · intro h
      cases h
    · intro given
      obtain ⟨⟨_, none⟩, _⟩ := given
      omega
  | succ levels ih =>
    rw [Buffer.depth, Buffer.visits, Buffer.tally_eq, Buffer.tally_eq]
    refine (counts_tableWith ih position id rfl small).congr ⟨?_, ?_⟩
    · intro given
      obtain ⟨table, nested⟩ := given
      refine ⟨.intro table fun c member => (nested c member).1, ?_⟩
      rw [Nat.add_comm, Nat.add_le_add_iff_right, Tally.max_all_le_iff, List.forall_mem_map]
      exact fun c member => (nested c member).2
    · intro given
      obtain ⟨wellFormed, shallow⟩ := given
      rw [Nat.add_comm, Nat.add_le_add_iff_right, Tally.max_all_le_iff,
        List.forall_mem_map] at shallow
      exact ⟨wellFormed.table, fun c member => ⟨wellFormed.nested member, shallow c member⟩⟩

end Walk
end FlatTable

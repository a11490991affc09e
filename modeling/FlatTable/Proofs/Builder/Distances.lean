import FlatTable.Proofs.Builder.Reached
import FlatTable.Proofs.Builder.Refusals

/-! The numbers that a builder writes have 16 or 32 bits, and the offsets that it gives have 32. Each is the
distance that it stands for, to the last bit: a table for which that cannot be is not created. -/
namespace FlatTable
open Layout Build

namespace Builder
variable {b b' : Builder}

/-- The offset is the distance from the front of all that is used to the end, and no larger than a buffer. -/
structure InFront (b : Builder) (rev : Nat) : Prop where
  front : rev = b.used.bytes.length
  small : rev ≤ maxBufferSize

/-- The reference that is held at distance `holder` reads as the distance from there to `target`. -/
structure Distant (b : Builder) (holder target : Nat) : Prop where
  behind : target < holder
  inside : holder ≤ b.used.bytes.length
  reads : b.finished.data.nat? (b.positionOf holder) offsetSize = some (holder - target)

/-- A table in front of `start` bytes, with its vtable in front of it at the first position. The vtable holds
its own size, which is the distance to the table, the size of the table, and for each field its distance from
the table, zero where nothing is set. The table starts with the distance back to the vtable. -/
structure TableMeasured (b : Builder) (a : TableArgs) (start object : Nat) : Prop where
  offset : object = a.objectEnd start
  small : object ≤ maxBufferSize
  vtableSize : b.finished.data.nat? 0 slotSize = some (b.positionOf object)
  size : b.finished.data.nat? slotSize slotSize = some (a.inlineSize start)
  fits : a.inlineSize start ≤ maxInline
  back : ∃ v, b.finished.data.value? .int (b.positionOf object) = some v ∧
    v.integer = b.positionOf object
  stored : ∀ (i : Nat) x, a.settings[i]? = some (some x) → i < maxFields ∧ start < a.fieldEnd start i ∧
    a.fieldEnd start i < object ∧ slotOf i + slotSize ≤ b.positionOf object ∧
      b.finished.data.nat? (slotOf i) slotSize = some (object - a.fieldEnd start i) ∧
        ∃ f, a.schema.field? a.table i = some f ∧
          b.finished.data.slice? (b.positionOf (a.fieldEnd start i)) (a.schema.inlineWidth f.type) =
            some (x.bytes a.schema f.type (a.fieldEnd start i))
  absent : ∀ i : Nat, (∀ x, a.settings[i]? ≠ some (some x)) → slotOf i + slotSize ≤ b.positionOf object →
    b.finished.data.nat? (slotOf i) slotSize = some 0
  reference : ∀ (i : Nat) p, a.settings[i]? = some (some (.reference p)) →
    b.Distant (a.fieldEnd start i) p.rev

theorem Refers.distant {holder target : Nat} (h : b.Refers holder target) (sound : b.Sound) :
    b.Distant holder target := by
  have behind := h.behind
  have inside := h.held.le
  have small := sound.small
  simp only [offsetSize] at behind
  simp only [maxBufferSize] at small
  exact ⟨by omega, inside, h.held.nat? (by simp only [offsetSize]; omega)⟩

/-! ### Tables -/

section
variable {a : TableArgs} {object : Nat} {written : List (Nat × Nat)}
  (table : b.TableWritten b' a object written)
include table

/-- The distance to the vtable is the vtable's size. -/
private theorem TableWritten.position : b'.positionOf object =
    vtableHeader + (slotsFrom object 0 written).length * slotSize := by
  have front := table.front
  simp only [positionOf, vtableHeader, slotSize] at front ⊢
  omega

private theorem TableWritten.entry {j n : Nat}
    (found : ((vtableHeader + (slotsFrom object 0 written).length * slotSize) ::
      (object - b.used.bytes.length) :: slotsFrom object 0 written)[j]? = some n) :
    b'.finished.data.nat? (j * slotSize) slotSize = some n := by
  have read := table.laid.entry found
  rwa [← table.front, positionOf, Nat.sub_self, Nat.zero_add] at read

private theorem TableWritten.slot {i d : Nat} (found : (slotsFrom object 0 written)[i]? = some d) :
    b'.finished.data.nat? (slotOf i) slotSize = some d := by
  have read := table.entry (j := i + 2) (n := d) (by
    rw [List.getElem?_cons_succ, List.getElem?_cons_succ, found])
  rwa [show (i + 2) * slotSize = slotOf i by simp only [slotOf, vtableHeader, slotSize]; omega] at read

private theorem TableWritten.back : ∃ v, b'.finished.data.value? .int (b'.positionOf object) = some v ∧
    v.integer = b'.positionOf object := by
  have leads := table.laid.vtable?
  rw [← table.front, positionOf, positionOf, Nat.sub_self, Buffer.vtable?, Option.bind_eq_some_iff] at leads
  obtain ⟨v, read, found⟩ := leads
  refine ⟨v, read, ?_⟩
  split at found
  · rename_i inside
    have zero := Option.some.inj found
    rw [positionOf]
    omega
  · cases found

/-- A table whose fields end where their widths and alignments tell is measured. -/
private theorem TableWritten.measured (sound : b'.Sound) (whole : a.Whole b.forceDefaults)
    (offset : object = a.objectEnd b.used.bytes.length)
    (ends : ∀ w ∈ written, w.2 = a.fieldEnd b.used.bytes.length w.1) :
    b'.TableMeasured a b.used.bytes.length object := by
  have position := table.position
  have size : object - b.used.bytes.length = a.inlineSize b.used.bytes.length := by
    rw [TableArgs.inlineSize, offset]
  have stored {i : Nat} {x : Setting} (set : a.settings[i]? = some (some x)) :
      (i, a.fieldEnd b.used.bytes.length i) ∈ written ∧ ∃ f, a.schema.field? a.table i = some f ∧
        x.Fits a.schema f.type ∧ b'.FieldLaid a.schema f.type b.used.bytes.length
          (a.fieldEnd b.used.bytes.length i) x := by
    obtain ⟨rev, found⟩ := table.fields.exists_written whole set
    obtain rfl : rev = a.fieldEnd b.used.bytes.length i := ends _ found
    obtain ⟨y, f, set', field, fits, laid, _⟩ := table.fields.exists_setting found
    obtain rfl : x = y := by simpa [set] using set'
    exact ⟨found, f, field, fits, laid⟩
  refine ⟨offset, Nat.le_trans table.laid.back.le sound.small, ?_, ?_, size ▸ table.laid.small, table.back,
    fun i x set => ?_, fun i unset inside => ?_, fun i p set => ?_⟩
  · rw [position]
    exact Nat.zero_mul slotSize ▸ table.entry (j := 0) rfl
  · rw [← size]
    exact Nat.one_mul slotSize ▸ table.entry (j := 1) rfl
  · obtain ⟨found, f, field, fits, laid⟩ := stored set
    have slot := table.fields.slot_of_mem object found
    have known : i < (slotsFrom object 0 written).length := (List.getElem?_eq_some_iff.mp slot).1
    have behind := table.behind _ found
    have inside := laid.inside
    have nonempty := laid.nonempty
    have few := table.laid.few
    have read := laid.held.slice?
    rw [Setting.length_bytes fits] at read
    refine ⟨?_, by omega, ?_, ?_, table.slot slot, f, field, read⟩
    · simp only [maxFields, maxInline, vtableHeader, slotSize] at few ⊢
      omega
    · simp only [offsetSize] at behind
      omega
    · rw [position]
      simp only [slotOf, slotSize]
      omega
  · have known : i < (slotsFrom object 0 written).length := by
      rw [position] at inside
      simp only [slotOf, slotSize] at inside
      omega
    have found := List.getElem?_eq_getElem known
    have zero := table.laid.missing i unset
    rw [found, Option.getD_some] at zero
    exact table.slot (found.trans (congrArg some zero))
  · obtain ⟨_, f, _, fits, laid⟩ := stored set
    exact (laid.refers fits).distant sound

end

theorem createTable_measured {s : Schema} (filled : s.Filled) {a : TableArgs} (fits : a.Fits s)
    (coherent : b.Coherent) {r : Ref .table} (ran : runFrom b (createTable a) = (.ok r, b')) :
    b'.TableMeasured (a.stored b.forceDefaults) b.used.bytes.length r.rev := by
  have whole := a.stored_whole b.forceDefaults
  have fits' := fits.stored b.forceDefaults
  rw [← runFrom_createTable_stored filled fits coherent.sound] at ran
  obtain ⟨written, b₁, ⟨used, ends⟩, offset, table⟩ :=
    (createTable_writes filled fits' coherent.sound fun t known =>
      pushAll_ends filled fits' known coherent.sound whole).of_ok ran
  rw [used] at offset
  exact table.measured (coherent.creates table.creates).sound whole offset ends

/-! ### Strings, vectors and the root -/

private theorem rev_of_place {α : Type} {steps : Build α} {kind : ObjectKind} {r : Ref kind}
    (ran : runFrom b (steps >>= fun _ => place kind) = (.ok r, b')) : r.rev = b'.used.bytes.length := by
  obtain ⟨_, b₁, _, ran⟩ := runFrom_bind_eq_ok_iff.mp ran
  change (Except.ok ⟨b₁.used.size⟩, { b₁ with placed := _ }) = (Except.ok r, b') at ran
  cases ran
  exact b₁.used.size_eq

/-- What is placed by the last of some steps is in front. -/
private theorem Coheres.inFront {kind : ObjectKind} {steps : Build (Ref kind)} (coheres : Coheres steps)
    (coherent : b.Coherent) {r : Ref kind} (ran : runFrom b steps = (.ok r, b'))
    (rev : r.rev = b'.used.bytes.length) : b'.InFront r.rev := by
  have after := coheres b coherent
  rw [ran] at after
  exact ⟨rev, rev ▸ after.sound.small⟩

theorem createString_inFront (coherent : b.Coherent) {text : String} {r : Ref .string}
    (ran : runFrom b (createString text) = (.ok r, b')) : b'.InFront r.rev := by
  refine (createString_coheres text).inFront coherent ran ?_
  obtain ⟨_, _, _, ran⟩ := runFrom_bind_eq_ok_iff.mp ran
  obtain ⟨_, _, _, ran⟩ := runFrom_bind_eq_ok_iff.mp ran
  exact rev_of_place ran

theorem createVector_inFront (coherent : b.Coherent) {t : ScalarType} {items : List Value}
    {r : Ref (.vector (.scalar t))} (ran : runFrom b (createVector t items) = (.ok r, b')) :
    b'.InFront r.rev := by
  refine (createVector_coheres t items).inFront coherent ran ?_
  unfold createVector at ran
  split at ran
  · exact absurd ran not_runFrom_throw_eq_ok
  · obtain ⟨_, _, _, ran⟩ := runFrom_bind_eq_ok_iff.mp ran
    obtain ⟨_, _, _, ran⟩ := runFrom_bind_eq_ok_iff.mp ran
    exact rev_of_place ran

theorem createReferenceVector_inFront (coherent : b.Coherent) {element : ElementKind}
    {target : ObjectKind} {items : List Placed} {r : Ref (.vector element)}
    (ran : runFrom b (createReferenceVector element target items) = (.ok r, b')) :
    b'.InFront r.rev ∧ ∀ (i : Nat) p, items[i]? = some p →
      b'.Distant (r.rev - offsetSize - i * offsetSize) p.rev := by
  have coheres := createReferenceVector_coheres element target items
  obtain ⟨creates, laid, _⟩ :=
    (createReferenceVector_does coherent.sound element target items).of_ok ran
  refine ⟨coheres.inFront coherent ran ?_, fun i p found => ?_⟩
  · obtain ⟨_, _, _, ran⟩ := runFrom_bind_eq_ok_iff.mp ran
    obtain ⟨_, _, _, ran⟩ := runFrom_bind_eq_ok_iff.mp ran
    obtain ⟨_, _, _, ran⟩ := runFrom_bind_eq_ok_iff.mp ran
    exact rev_of_place ran
  · have refers := laid.refers i p.rev (by rw [List.getElem?_map, found, Option.map_some])
    exact refers.distant (coherent.creates creates).sound

theorem finish_distant (coherent : b.Coherent) {root : Ref .table} {identifier : Option Identifier}
    {f : FinishedBuffer} (ran : runFrom b (finish root identifier) = (.ok f, b')) :
    f = b'.finished ∧ b'.Distant b'.used.bytes.length root.rev := by
  obtain ⟨same, _, grows, rooted, _⟩ := (finish_does root identifier coherent.sound).of_ok ran
  exact ⟨same, rooted.reference.distant (coherent.extends grows).sound⟩

/-- Whatever a builder has been asked for before, and by whatever schemas whose structs have members: a table
is refused because it refers to something that has not been placed, because its inline part is larger than 16
bits can tell, because a field is written whose number is too large for a vtable, or for want of room. Else its
vtable tells the exact distances, with entries for just the fields that are stored. All offsets that are given,
and all references that are written, are the exact distances too. -/
theorem distances_exact (reached : b.Reached) :
    (∀ (s : Schema) (a : TableArgs), s.Filled → a.Fits s →
      (∃ r b', runFrom b (createTable a) = (.ok r, b') ∧
        b'.TableMeasured (a.stored b.forceDefaults) b.used.bytes.length r.rev) ∨
      ∃ e b', runFrom b (createTable a) = (.error e, b') ∧ (a.stored b.forceDefaults).Refused b e) ∧
    (∀ text r b', runFrom b (createString text) = (.ok r, b') → b'.InFront r.rev) ∧
    (∀ t items r b', runFrom b (createVector t items) = (.ok r, b') → b'.InFront r.rev) ∧
    (∀ element target items r b', runFrom b (createReferenceVector element target items) = (.ok r, b') →
      b'.InFront r.rev ∧ ∀ (i : Nat) p, items[i]? = some p →
        b'.Distant (r.rev - offsetSize - i * offsetSize) p.rev) ∧
    ∀ root identifier f b', runFrom b (finish root identifier) = (.ok f, b') →
      f = b'.finished ∧ b'.Distant b'.used.bytes.length root.rev := by
  have coherent := reached.coherent
  refine ⟨fun s a filled fits => ?_, fun _ _ _ => createString_inFront coherent,
    fun _ _ _ _ => createVector_inFront coherent, fun _ _ _ _ _ => createReferenceVector_inFront coherent,
    fun _ _ _ _ => finish_distant coherent⟩
  cases ran : runFrom b (createTable a) with
  | mk result b' =>
    cases result with
    | ok r => exact .inl ⟨r, b', rfl, createTable_measured filled fits coherent ran⟩
    | error e =>
      exact .inr ⟨e, b', rfl, createTable_refused filled fits coherent.sound
        (fun _ p _ => coherent.behind p) e b' ran⟩

/-- Two tables have one name, so the schema does not pass validation. -/
def namesakes : Schema where
  nameSpace := ""
  attributes := []
  enums := #[]
  structs := #[⟨"Place", [⟨"row", .short⟩, ⟨"height", .double⟩]⟩]
  tables := #[
    ⟨"Letter", #[.plain "weight" (.scalar .int), .plain "place" (.struct 0), .plain "text" .string]⟩,
    ⟨"Letter", #[]⟩]
  root := some 0

def spoken : Builder := (runFrom (ofStorage (.zeros 0 .standard)) (createString "ab")).2

def letter : TableArgs := (TableArgs.mk namesakes 0 #[none, none, none]).addAll [
  .scalar "weight" (ScalarType.int.value 0),
  .struct "place" [ScalarType.short.value 3, ScalarType.double.value 0],
  .reference "text" ⟨8, .string⟩]

theorem namesakes_exact : namesakes.validate.isOk = false ∧ namesakes.Filled ∧ spoken.Reached ∧
    letter.Fits namesakes ∧ ∃ r b', runFrom spoken (createTable letter) = (.ok r, b') ∧ r.rev = 36 ∧
      b'.TableMeasured (letter.stored spoken.forceDefaults) spoken.used.bytes.length 36 := by
  have filled : namesakes.Filled := by
    intro d member
    obtain rfl : d = _ := List.mem_singleton.mp member
    exact List.cons_ne_nil _ _
  have reached : spoken.Reached := .string (.start _) "ab"
  have made : TableArgs.new namesakes 0 = .ok ⟨namesakes, 0, #[none, none, none]⟩ := rfl
  have fits : letter.Fits namesakes := (TableArgs.addAll_fits (TableArgs.new_fits made).1 _).1
  have placed : (runFrom spoken (createTable letter)).1.toOption.map Ref.rev = some 36 := by
    decide +kernel
  refine ⟨by decide +kernel, filled, reached, fits, ?_⟩
  rcases (distances_exact reached).1 namesakes letter filled fits with
    ⟨r, b', ran, measured⟩ | ⟨e, b', ran, _⟩
  · rw [ran] at placed
    have rev : r.rev = 36 := Option.some.inj placed
    exact ⟨r, b', ran, rev, rev ▸ measured⟩
  · rw [ran] at placed
    cases placed

end Builder
end FlatTable

import FlatTable.Proofs.Builder.Accepted
import FlatTable.Proofs.Builder.Operations

/-! The parts of a finished buffer: the reference to its root, its identifier, and all objects that have been
created, with their vtables. They lie one behind the other, and so do the fields within a table. -/
namespace FlatTable
open Layout Build

inductive Part
  | root
  | identifier
  | object (c : Creation)
  | vtable (c : Creation)

def Creation.parts (c : Creation) : List Part :=
  match c.content with
  | .table _ => [.vtable c, .object c]
  | _ => [.object c]

def History.parts (h : History) (identifier : Option Identifier) : List Part :=
  .root :: ((identifier.toList.map fun _ => .identifier) ++ h.flatMap Creation.parts)

/-- Only of a table the content does not tell how many bytes it takes. -/
theorem Content.eq_table_of_size? {content : Content} (unknown : content.size? = none) :
    ∃ a, content = .table a := by
  cases content with
  | table a => exact ⟨a, rfl⟩
  | string | scalars | strings | tables => cases unknown

/-! ### What is to be shown -/

/-- The fields of a table at a position: each that is stored lies behind the distance to the vtable and within
the table, at a multiple of its alignment, and in front of those with greater numbers. Only a default is not
stored. -/
structure Buffer.FieldsInOrder (d : Buffer) (s : Schema) (a : TableArgs) (pos size : Nat) : Prop where
  aligned : offsetSize ∣ pos
  room : offsetSize ≤ size
  inside : ∀ i holder, d.fieldPosition? pos i = some holder → ∃ x f,
    a.settings[i]? = some (some x) ∧ s.field? a.table i = some f ∧ 0 < s.inlineWidth f.type ∧
      s.inlineAlignment f.type ∣ holder ∧ pos + offsetSize ≤ holder ∧
        holder + s.inlineWidth f.type ≤ pos + size
  before : ∀ i j f p q, i < j → s.field? a.table i = some f → d.fieldPosition? pos i = some p →
    d.fieldPosition? pos j = some q → p + s.inlineWidth f.type ≤ q
  stored : ∀ i x, a.settings[i]? = some (some x) → ¬ Builder.Omitted a i x →
    (d.fieldPosition? pos i).isSome

namespace FinishedBuffer
variable {f : FinishedBuffer} {parts : List Part} {lo : Nat}

def positionOf (f : FinishedBuffer) (rev : Nat) : Nat := f.allocated - f.head - rev

def range? (f : FinishedBuffer) : Part → Option (Nat × Nat)
  | .root => some (0, offsetSize)
  | .identifier => some (offsetSize, offsetSize + identifierSize)
  | .object c => (c.content.extent? f.data (f.positionOf c.rev)).map fun n =>
      (f.positionOf c.rev, f.positionOf c.rev + n)
  | .vtable c => (f.data.vtable? (f.positionOf c.rev)).bind fun vtable =>
      (f.data.nat? vtable slotSize).map fun n => (vtable, vtable + n)

/-- Every part is in the buffer, and each ends before those begin that come later. An object that is no table
has as many bytes as its content takes. A vtable ends where its table begins, and the fields are in order. -/
structure Parted (f : FinishedBuffer) (s : Schema) (identifier : Option Identifier) (h : History) :
    Prop where
  inside : ∀ part ∈ h.parts identifier, ∃ start stop, f.range? part = some (start, stop) ∧
    start < stop ∧ stop ≤ f.data.size
  before : (h.parts identifier).Pairwise fun part later => ∀ start stop start' stop',
    f.range? part = some (start, stop) → f.range? later = some (start', stop') → stop ≤ start'
  sized : ∀ c ∈ h, ∀ n, c.content.size? = some n →
    f.range? (.object c) = some (f.positionOf c.rev, f.positionOf c.rev + n)
  adjoining : ∀ c ∈ h, ∀ a, c.content = .table a → ∃ start,
    f.range? (.vtable c) = some (start, f.positionOf c.rev)
  fields : ∀ c ∈ h, ∀ a, c.content = .table a → ∃ size,
    f.range? (.object c) = some (f.positionOf c.rev, f.positionOf c.rev + size) ∧
      f.data.FieldsInOrder s a (f.positionOf c.rev) size

/-! ### Parts in a row -/

def InRow (f : FinishedBuffer) : Nat → List Part → Prop
  | lo, [] => lo ≤ f.data.size
  | lo, part :: rest => ∃ start stop, f.range? part = some (start, stop) ∧ lo ≤ start ∧ start < stop ∧
      f.InRow stop rest

theorem InRow.le (row : f.InRow lo parts) : lo ≤ f.data.size := by
  induction parts generalizing lo with
  | nil => exact row
  | cons part rest ih =>
    obtain ⟨start, stop, _, behind, nonempty, rest⟩ := row
    have := ih rest
    omega

theorem InRow.mono {lo' : Nat} (row : f.InRow lo parts) (le : lo' ≤ lo) : f.InRow lo' parts := by
  cases parts with
  | nil => exact Nat.le_trans le row
  | cons part rest =>
    obtain ⟨start, stop, range, behind, rest⟩ := row
    exact ⟨start, stop, range, Nat.le_trans le behind, rest⟩

theorem InRow.inside (row : f.InRow lo parts) {part : Part} (member : part ∈ parts) :
    ∃ start stop, f.range? part = some (start, stop) ∧ lo ≤ start ∧ start < stop ∧
      stop ≤ f.data.size := by
  induction parts generalizing lo with
  | nil => cases member
  | cons first rest ih =>
    obtain ⟨start, stop, range, behind, nonempty, later⟩ := row
    rcases List.mem_cons.mp member with rfl | member
    · exact ⟨start, stop, range, behind, nonempty, later.le⟩
    · obtain ⟨start', stop', range', behind', rest⟩ := ih later member
      exact ⟨start', stop', range', by omega, rest⟩

theorem InRow.pairwise (row : f.InRow lo parts) : parts.Pairwise fun part later =>
    ∀ start stop start' stop', f.range? part = some (start, stop) →
      f.range? later = some (start', stop') → stop ≤ start' := by
  induction parts generalizing lo with
  | nil => exact .nil
  | cons first rest ih =>
    obtain ⟨start, stop, range, _, _, later⟩ := row
    refine List.pairwise_cons.mpr ⟨fun part member a b c d first second => ?_, ih later⟩
    obtain ⟨rfl, rfl⟩ := Prod.mk.inj (Option.some.inj (range.symm.trans first))
    obtain ⟨start', stop', range', behind, _⟩ := later.inside member
    obtain ⟨rfl, rfl⟩ := Prod.mk.inj (Option.some.inj (range'.symm.trans second))
    exact behind

end FinishedBuffer

namespace Builder
variable {b b' : Builder} {s : Schema} {c : Creation} {lo hi : Nat}

theorem positionOf_finished (b : Builder) (rev : Nat) : b.finished.positionOf rev = b.positionOf rev := by
  rw [FinishedBuffer.positionOf, positionOf, ← b.used.size_eq]
  change b.free.size + b.used.size - b.free.size - rev = _
  omega

theorem range?_object {n : Nat}
    (extent : c.content.extent? b.finished.data (b.positionOf c.rev) = some n) :
    b.finished.range? (.object c) = some (b.positionOf c.rev, b.positionOf c.rev + n) := by
  rw [FinishedBuffer.range?, positionOf_finished, extent]
  rfl

/-- The vtable of a table ends where the table begins. -/
theorem TableFramed.range? {object start : Nat} {slots : List Nat} (h : b.TableFramed object start slots)
    (content : Content) : b.finished.range? (.vtable ⟨object, content⟩) =
      some (b.positionOf (object + (slots.length + 2) * slotSize), b.positionOf object) := by
  have inFront := h.vtable.le
  rw [FinishedBuffer.range?, positionOf_finished, h.vtable?, Option.bind_some, h.vtableSize]
  simp only [Option.map_some, positionOf, vtableHeader, slotSize, Option.some.injEq, Prod.mk.injEq,
    true_and] at inFront ⊢
  omega

/-- Every part of an object has some bytes, and none of them is padding of the buffer. -/
theorem Framed.inside (h : b.Framed c) (sound : b.Sound) {part : Part} (member : part ∈ c.parts) :
    ∃ start stop, b.finished.range? part = some (start, stop) ∧ start < stop ∧
      stop ≤ b.finished.data.size := by
  obtain ⟨n, extent, positive, inside⟩ := h.exists_extent sound
  have object : ∃ start stop, b.finished.range? (.object c) = some (start, stop) ∧ start < stop ∧
      stop ≤ b.finished.data.size := ⟨_, _, range?_object extent, by omega, inside⟩
  obtain ⟨rev, content⟩ := c
  cases content with
  | string | scalars | strings | tables =>
    obtain rfl := List.mem_singleton.mp member
    exact object
  | table a =>
    rcases List.mem_cons.mp member with rfl | last
    · obtain ⟨start, slots, framed⟩ : ∃ start slots, b.TableFramed rev start slots := h
      have whole := framed.vtable.le
      refine ⟨_, _, framed.range? (.table a), ?_, Nat.le_trans (Nat.le_add_right _ _) inside⟩
      simp only [positionOf, slotSize] at whole ⊢
      omega
    · obtain rfl := List.mem_singleton.mp last
      exact object

/-- The parts of an object fill the bytes that it takes up. -/
theorem Spans.inRow (spans : b.Spans c lo hi) (laid : b.Laid c) (sound : b.Sound) {rest : List Part}
    (row : b.finished.InRow (b.positionOf lo) rest) :
    b.finished.InRow (b.positionOf hi) (c.parts ++ rest) := by
  have inFront := laid.trailingPad_lt.2
  cases spans with
  | block known fits =>
    have extent := range?_object (laid.framed.extent?_of_size? sound known)
    have nonempty := (Spans.block (b := b) known fits).lt
    have only : c.parts = [.object c] := by
      obtain ⟨rev, content⟩ := c
      cases content <;> first | rfl | cases known
    rw [only]
    refine ⟨_, _, extent, Nat.le_refl _, ?_, row.mono ?_⟩
    · simp only [positionOf] at *
      omega
    · simp only [positionOf]
      omega
  | @table rev start a slots laid =>
    have extent := range?_object (c := ⟨rev, .table a⟩) (laid.framed.extent? a)
    have room := laid.room
    have whole := laid.vtable.le
    simp only [offsetSize] at room
    dsimp only at extent inFront
    refine ⟨_, _, laid.framed.range? (.table a), Nat.le_refl _, ?_, _, _, extent, Nat.le_refl _, ?_,
      row.mono ?_⟩
    · simp only [positionOf, slotSize] at *
      omega
    · omega
    · simp only [positionOf]
      omega

/-- Objects that are spread lie in a row. -/
theorem Spread.inRow {top : Nat} {h : History} (spread : b.Spread top h) (laid : ∀ c ∈ h, b.Laid c)
    (sound : b.Sound) (padded : b.trailingPad ≤ top) :
    b.finished.InRow (b.positionOf top) (h.flatMap Creation.parts) := by
  induction h generalizing top with
  | nil =>
    change b.positionOf top ≤ b.finished.data.size
    rw [size_data, positionOf]
    omega
  | cons c older ih =>
    obtain ⟨lo, hi, spans, behind, rest⟩ := spread
    obtain ⟨first, later⟩ := List.forall_mem_cons.mp laid
    have inFront := first.trailingPad_lt.2
    have lower : b.trailingPad ≤ lo := by
      cases spans with
      | block known fits =>
        obtain ⟨n, extent, _, inside⟩ := first.framed.exists_extent sound
        obtain rfl := Option.some.inj (extent.symm.trans (first.framed.extent?_of_size? sound known))
        rw [size_data] at inside
        simp only [positionOf] at inside
        omega
      | table laid => exact laid.before
    rw [List.flatMap_cons]
    refine (spans.inRow first sound (ih rest later lower)).mono ?_
    simp only [positionOf]
    omega

theorem Rooted.aligned_positionOf {root : Nat} {tag : List UInt8} (rooted : b.Rooted root tag)
    (sound : b.Sound) {a rev : Nat} (divides : a ∣ 8) (asked : a ≤ b.minAlign) (even : a ∣ rev) :
    a ∣ b.positionOf rev :=
  dvd_positionOf (Nat.dvd_trans (dvd_of_le_of_dvd_eight divides sound.minAlign asked) rooted.whole) even

theorem TableLaid.fieldsInOrder {object start root : Nat} {a : TableArgs} {slots : List Nat}
    {tag : List UInt8} (laid : b.TableLaid object a start slots) (fits : a.Fits s)
    (rooted : b.Rooted root tag) (sound : b.Sound) :
    b.finished.data.FieldsInOrder s a (b.positionOf object) (object - start) := by
  have room := laid.room
  have inFront := laid.back.le
  obtain rfl := fits.schema
  refine ⟨rooted.aligned_positionOf sound (by decide) rooted.aligned laid.aligned, by omega,
    fun i holder place => ?_, fun i j f p q before field => laid.place_before before field,
    fun i x set needed => ?_⟩
  · obtain ⟨x, f, rev, set, field, holds, inside, fieldLaid, rfl⟩ := laid.exists_stored place
    have bounds := fieldLaid.inside
    simp only [offsetSize] at inside room
    refine ⟨x, f, set, field, fieldLaid.nonempty, rooted.aligned_positionOf sound
      (Setting.inlineAlignment_dvd_eight holds) fieldLaid.minAlign fieldLaid.aligned, ?_, ?_⟩
    · simp only [positionOf, offsetSize]
      omega
    · simp only [positionOf]
      omega
  · rcases laid.fieldPosition?_of_set set with ⟨rev, f, _, _, _, _, place⟩ | ⟨omitted, _⟩
    · rw [place]
      rfl
    · exact absurd omitted needed

theorem Framed.laid (h : b.Framed c) {size : Nat} (known : c.content.size? = some size) : b.Laid c := by
  obtain ⟨rev, content⟩ := c
  cases content with
  | string s | scalars t items | strings items | tables items => exact h
  | table a => cases known

theorem Request.content_eq_table {request : Request} {a : TableArgs} (same : request.content = .table a) :
    request = .table a := by
  cases request with
  | table a' => exact congrArg Request.table (Content.table.inj same)
  | references element => cases element <;> cases same
  | string | vector => cases same

/-- Each request creates an object that is laid out in front of the bytes that were used before. -/
theorem Request.steps_lays (filled : s.Filled) (request : Request)
    (fits : ∀ a, request = .table a → a.Fits s) (sound : b.Sound) : request.steps.Does b fun p b' =>
      b.Creates b' p.rev p.kind ∧ b'.Laid ⟨p.rev, request.content⟩ ∧
        ∃ lo hi, b.used.bytes.length ≤ lo ∧ b'.Spans ⟨p.rev, request.content⟩ lo hi := by
  cases known : request.content.size? with
  | some size =>
    refine (request.steps_frames sound).mono fun p b' given => ?_
    obtain ⟨creates, framed, room⟩ := given
    exact ⟨creates, framed.laid known, Spans.exists_block known (room size known)⟩
  | none =>
    obtain ⟨a, content⟩ := Content.eq_table_of_size? known
    obtain rfl := Request.content_eq_table content
    refine (createTable_does filled (fits a rfl) sound).bind_pure fun r b' given => ?_
    obtain ⟨creates, ⟨slots, laid, _⟩, _⟩ := given
    exact ⟨creates, ⟨_, slots, laid⟩, _, _, Nat.le_refl _, .table laid⟩

end Builder

/-! ### Runs -/

namespace Construction
variable {s : Schema} {x : Construction}

/-- What runs keep whose tables are asked for with arguments that fit. -/
structure Arranged (s : Schema) (x : Construction) : Prop where
  framed : x.Framed
  laid : ∀ c ∈ x.history, x.builder.Laid c
  spread : x.builder.Spread x.builder.used.bytes.length x.history
  fits : ∀ c ∈ x.history, ∀ a, c.content = .table a → a.Fits s

theorem start_arranged (s : Schema) (storage : Storage) : (start storage).Arranged s :=
  ⟨start_framed storage, List.forall_mem_nil _, trivial, List.forall_mem_nil _⟩

theorem Arranged.extends (h : x.Arranged s) {b' : Builder} (grows : x.builder.Extends b') :
    Arranged s ⟨b', x.history⟩ := by
  have framed := h.framed.extends grows
  obtain ⟨front, grown⟩ := grows
  refine ⟨framed, fun c known => (h.laid c known).kept grown.keeps,
    (h.spread.kept grown.keeps).mono ?_, h.fits⟩
  rw [grown.length]
  exact Nat.le_add_left _ _

theorem Arranged.operate (filled : s.Filled) (h : x.Arranged s) {o : Operation}
    (fits : ∀ a, o = .request (.table a) → a.Fits s) : (x.operate o).Arranged s := by
  cases o with
  | request r =>
    refine ask_of_does (r.steps_lays filled (fun a same => fits a (same ▸ rfl)) h.framed.builder)
      (fun _ => h.extends) fun p b' given => ?_
    obtain ⟨creates, laid, lo, hi, inFront, spans⟩ := given
    have keeps := creates.keeps
    have framed := h.framed.creates creates laid.framed
    refine ⟨framed, List.forall_mem_cons.mpr ⟨laid, fun c known => (h.laid c known).kept keeps⟩,
      ⟨lo, hi, spans, spans.le laid.trailingPad_lt.2, (h.spread.kept keeps).mono inFront⟩,
      List.forall_mem_cons.mpr ⟨fun a content => fits a ?_, h.fits⟩⟩
    rw [Builder.Request.content_eq_table content]
  | force on =>
    have keeps := x.builder.keeps_force on
    exact ⟨h.framed.force on, fun c known => (h.laid c known).kept keeps, h.spread.kept keeps, h.fits⟩

theorem Arranged.operateAll (filled : s.Filled) (h : x.Arranged s) {operations : List Operation}
    (fits : ∀ a, .request (.table a) ∈ operations → a.Fits s) : (x.operateAll operations).Arranged s :=
  operateAll_of_operate h fun _ arranged _ member =>
    arranged.operate filled fun a same => fits a (same ▸ member)

/-- Everything that is finished lies in a row, from the beginning of the buffer on. -/
private theorem Arranged.inRow (h : x.Arranged s) {b' : Builder} {identifier : Option Identifier}
    (grows : x.builder.Extends b') (used : x.builder.used.bytes ≠ [])
    (room : x.builder.used.bytes.length + ((identifier.map Identifier.bytes).getD []).length + offsetSize ≤
      b'.used.bytes.length) : b'.finished.InRow 0 (x.history.parts identifier) := by
  have sound := (h.framed.extends grows).builder
  obtain ⟨_, grown⟩ := grows
  -- Something was used, so the padding does not change any more.
  have padded : b'.trailingPad ≤ x.builder.used.bytes.length := by
    rw [grown.trailingPad used]
    exact h.framed.builder.trailingPad
  have objects := (h.spread.kept grown.keeps).inRow (fun c known => (h.laid c known).kept grown.keeps)
    sound padded
  cases identifier with
  | none =>
    refine ⟨_, _, rfl, Nat.le_refl _, by decide, objects.mono ?_⟩
    simp only [Builder.positionOf, Option.map_none, Option.getD_none, List.length_nil] at room ⊢
    omega
  | some identifier =>
    refine ⟨_, _, rfl, Nat.le_refl _, by decide, _, _, rfl, Nat.le_refl _, by decide, objects.mono ?_⟩
    have length := identifier.length_eq
    simp only [Builder.positionOf, Option.map_some, Option.getD_some] at room ⊢
    omega

/-- What is finished has its parts in order. -/
theorem Arranged.parted (h : x.Arranged s) {root : Ref .table} {identifier : Option Identifier}
    {f : FinishedBuffer} {b' : Builder}
    (ran : runFrom x.builder (Builder.finish root identifier) = (.ok f, b')) :
    f.Parted s identifier x.history := by
  obtain ⟨rfl, isRoot, grows, rooted, room⟩ :=
    (Builder.finish_does root identifier h.framed.builder).of_ok ran
  have used : x.builder.used.bytes ≠ [] := by
    obtain ⟨c, known, rev⟩ := h.framed.exists_creation isRoot
    obtain ⟨positive, inFront⟩ := h.framed.inFront known
    exact List.ne_nil_of_length_pos (Nat.lt_of_lt_of_le positive inFront)
  have row := h.inRow grows used room
  have sound := (h.framed.extends grows).builder
  obtain ⟨_, grown⟩ := grows
  have laid (c : Creation) (known : c ∈ x.history) := (h.laid c known).kept grown.keeps
  have same (rev : Nat) := b'.positionOf_finished rev
  refine ⟨fun part member => ?_, row.pairwise, fun c known n size => ?_, fun c known a content => ?_,
    fun c known a content => ?_⟩
  · obtain ⟨start, stop, range, _, nonempty, inside⟩ := row.inside member
    exact ⟨start, stop, range, nonempty, inside⟩
  · rw [same]
    exact Builder.range?_object ((laid c known).framed.extent?_of_size? sound size)
  · obtain ⟨rev, _⟩ := c
    obtain rfl := content
    obtain ⟨start, slots, table⟩ := laid _ known
    rw [same]
    exact ⟨_, table.framed.range? (.table a)⟩
  · have fits := h.fits c known a content
    obtain ⟨rev, _⟩ := c
    obtain rfl := content
    obtain ⟨start, slots, table⟩ := laid _ known
    rw [same]
    exact ⟨_, Builder.range?_object (table.framed.extent? a), table.fieldsInOrder fits rooted sound⟩

/-- In whatever is finished after operations of which some may have failed, no two parts share a byte: neither the
reference to the root, nor the identifier, nor any of the objects that have been placed. Nor do two fields of one
table. Building from JSON is a run of requests too. -/
theorem finish_parted (validated : s.validate = .ok ()) (storage : Storage) {operations : List Operation}
    (fits : ∀ a, .request (.table a) ∈ operations → a.Fits s) :
    let x := (start storage).operateAll operations
    x.builder.placed.map Placed.rev = x.history.map Creation.rev ∧
      (∀ root identifier f b', runFrom x.builder (Builder.finish root identifier) = (.ok f, b') →
        f.Parted s identifier x.history) ∧
        ∀ id json, ∃ requests : List Builder.Request, (∀ a, .table a ∈ requests → a.Fits s) ∧
          (x.operateAll (requests.map .request)).builder =
            (runFrom x.builder (Builder.buildTable s id json)).2 := by
  have filled := (Schema.valid_of_validate validated).filled
  have arranged := (start_arranged s storage).operateAll filled fits
  exact ⟨arranged.framed.placed, fun _ _ _ _ => arranged.parted, fun id json => buildTable_operates s id json _⟩

def plots : Schema where
  nameSpace := ""
  attributes := []
  enums := #[]
  structs := #[⟨"Point", [⟨"x", .short⟩, ⟨"y", .double⟩]⟩]
  tables := #[⟨"Plot", #[
    .plain "color" (.scalar .ubyte), .plain "center" (.struct 0), .plain "size" (.scalar .int),
    .plain "name" .string, .plain "marks" (.vector (.scalar .ushort))]⟩]
  root := some 0

def plot : TableArgs := (TableArgs.mk plots 0 #[none, none, none, none, none]).addAll [
  .scalar "color" (ScalarType.ubyte.value 7),
  .struct "center" [ScalarType.short.value 3, ScalarType.double.value 0],
  .scalar "size" (ScalarType.int.value 0),
  .reference "name" ⟨8, .string⟩,
  .reference "marks" ⟨20, .vector (.scalar .ushort)⟩]

/-- The third request is refused. -/
def plotting : List Operation := [
  .request (.string "ab"),
  .request (.vector .ushort [ScalarType.ushort.value 1, ScalarType.ushort.value 2, ScalarType.ushort.value 3]),
  .request (.references .string .string [⟨8, .string⟩, ⟨9, .string⟩]),
  .request (.table plot)]

def plotted : Construction := (start (.zeros 0 .standard)).operateAll plotting

def plotTag : Identifier := ⟨[80, 76, 79, 84], rfl⟩

theorem plotting_fits (a : TableArgs) (asked : .request (.table a) ∈ plotting) : a.Fits plots := by
  have made : TableArgs.new plots 0 = .ok ⟨plots, 0, #[none, none, none, none, none]⟩ := rfl
  obtain rfl : a = plot := by simpa [plotting] using asked
  exact (TableArgs.addAll_fits (TableArgs.new_fits made).1 _).1

/-- There are two bytes of padding in front of the vtable and two in front of the string. -/
theorem plotted_parted : plots.validate = .ok () ∧ (∀ a, .request (.table a) ∈ plotting → a.Fits plots) ∧
    plotted.builder.placed.map Placed.rev = [56, 20, 8] ∧
      ∃ f b', runFrom plotted.builder (Builder.finish ⟨56⟩ (some plotTag)) = (.ok f, b') ∧
        f.Parted plots (some plotTag) plotted.history ∧
          (plotted.history.parts (some plotTag)).map f.range? =
            [some (0, 4), some (4, 8), some (10, 24), some (24, 60), some (60, 70), some (72, 79)] := by
  have validated : plots.validate = .ok () := rfl
  have ranges : (runFrom plotted.builder (Builder.finish ⟨56⟩ (some plotTag))).1.toOption.map
      (fun f => (plotted.history.parts (some plotTag)).map f.range?) =
        some [some (0, 4), some (4, 8), some (10, 24), some (24, 60), some (60, 70), some (72, 79)] := by
    decide +kernel
  refine ⟨validated, plotting_fits, by decide +kernel, ?_⟩
  cases finished : runFrom plotted.builder (Builder.finish ⟨56⟩ (some plotTag)) with
  | mk result b' =>
    rw [finished] at ranges
    cases result with
    | error e => cases ranges
    | ok f =>
      obtain ⟨_, parted, _⟩ := finish_parted validated (.zeros 0 .standard) plotting_fits
      exact ⟨f, b', rfl, parted _ _ f b' finished, Option.some.inj ranges⟩

end Construction
end FlatTable

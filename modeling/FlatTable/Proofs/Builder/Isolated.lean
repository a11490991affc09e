import FlatTable.Proofs.Builder.Areas
import FlatTable.Proofs.Builder.Verifies
import FlatTable.Proofs.Mutate.Isolation

/-! In a finished buffer every scalar that can be changed has its bytes for itself. -/
namespace FlatTable
open Layout Build

namespace Builder
variable {b : Builder} {s : Schema} {h : History} {rev : Nat} {a : TableArgs}

/-- Distances of objects are known from their positions. -/
theorem positionOf_inj {rev' : Nat} (inFront : rev ≤ b.used.bytes.length)
    (inFront' : rev' ≤ b.used.bytes.length) (same : b.positionOf rev = b.positionOf rev') :
    rev = rev' := by
  simp only [positionOf] at same
  omega

theorem Fulfils.exists_elements {e : ElementType} {c : Content} (h : Fulfils s (.vector e) c) :
    ∃ count width, c.elements? = some (count, width) := by
  cases h <;> exact ⟨_, _, rfl⟩

def Fixed (b : Builder) (s : Schema) (h : History) (q k : Nat) : Prop :=
  ∃ c i p n, c ∈ h ∧ b.Area s c i p n ∧ p ≤ q ∧ q + k ≤ p + n ∧
    ∀ j, i = some j → ¬ c.content.StoresInline s j

/-- The area in which a scalar is stored: that of its field, or that of an element of the vector that
the field has. -/
inductive Home (b : Builder) (s : Schema) (h : History) :
    Nat → TableArgs → Cell → Nat → ScalarType → Creation → Nat → Prop where
  | field {rev i holder : Nat} {a : TableArgs} {f : FieldDef} {type : ScalarType}
      (found : s.field? a.table i = some f) (scalar : s.scalarType? f.type = some type)
      (place : b.finished.data.fieldPosition? (b.positionOf rev) i = some holder) :
      Home b s h rev a (.field i) holder type ⟨rev, .table a⟩ i
  | member {rev i j holder struct offset : Nat} {a : TableArgs} {f : FieldDef} {d : StructDef}
      {m : Member} (found : s.field? a.table i = some f) (isStruct : f.type = .struct struct)
      (declared : s.structs[struct]? = some d) (member : d.members[j]? = some m)
      (inside : d.offsets[j]? = some offset)
      (place : b.finished.data.fieldPosition? (b.positionOf rev) i = some holder) :
      Home b s h rev a (.member i j) (holder + offset) m.type ⟨rev, .table a⟩ i
  | element {rev rev' i j : Nat} {a : TableArgs} {type : ScalarType} {items : List Value}
      {u : FieldVector}
      (read : TableView.field ⟨b.finished.data, b.positionOf rev⟩ s a.table i = .vector u)
      (start : u.start = b.positionOf rev' + offsetSize)
      (object : ⟨rev', .scalars type items⟩ ∈ h) (inside : j < items.length) :
      Home b s h rev a (.element i j) (b.positionOf rev' + offsetSize + j * type.width) type
        ⟨rev', .scalars type items⟩ j

theorem isInline_of_scalar {fieldType : FieldType} {type : ScalarType}
    (scalar : s.scalarType? fieldType = some type) : fieldType.isInline = true := by
  cases fieldType <;> first | rfl | cases scalar

section
variable {c c' : Cell} {p p' i : Nat} {type type' : ScalarType} {o : Creation}

/-- A scalar is within the area of its home. -/
theorem Home.exists_area (home : b.Home s h rev a c p type o i) (known : ⟨rev, .table a⟩ ∈ h) :
    o ∈ h ∧ o.content.StoresInline s i ∧
      ∃ q n, b.Area s o (some i) q n ∧ q ≤ p ∧ p + type.width ≤ q + n := by
  cases home with
  | field found scalar place =>
    refine ⟨known, ⟨_, found, isInline_of_scalar scalar⟩, p, _, .field found place, Nat.le_refl _, ?_⟩
    rw [(Setting.inlineWidth_of_scalar scalar).1]
  | member found isStruct declared member inside place =>
    refine ⟨known, ⟨_, found, by rw [isStruct]; rfl⟩, _, _, .field found place,
      Nat.le_add_right _ _, ?_⟩
    have fits := StructDef.offset_add_width_le_size member inside
    have width := (Setting.inlineWidth_of_structOf? (s := s)
      (show TableArgs.structOf? s (.struct _) = some _ from declared)).1
    rw [isStruct, width]
    omega
  | element read start object inside =>
    exact ⟨object, trivial, _, _, .element rfl inside, Nat.le_refl _, Nat.le_refl _⟩

/-- Two scalars with the same home are the same, or different members of a struct. -/
theorem Home.apart {rev' : Nat} {a' : TableArgs} (home : b.Home s h rev a c p type o i)
    (home' : b.Home s h rev' a' c' p' type' o i)
    (other : ¬ TableView.SameCell s ⟨b.finished.data, b.positionOf rev⟩ a.table c
      ⟨b.finished.data, b.positionOf rev'⟩ a'.table c') :
    p + type.width ≤ p' ∨ p' + type'.width ≤ p := by
  cases home with
  | field found scalar place =>
    cases home' with
    | field => exact absurd .here other
    | member found' isStruct =>
      obtain rfl := Option.some.inj (found.symm.trans found')
      rw [isStruct] at scalar
      cases scalar
  | @member _ j _ _ _ _ _ _ _ found isStruct declared member inside place =>
    cases home' with
    | field found' scalar =>
      obtain rfl := Option.some.inj (found.symm.trans found')
      rw [isStruct] at scalar
      cases scalar
    | @member _ k _ _ _ _ _ _ _ found' isStruct' declared' member' inside' place' =>
      obtain rfl := Option.some.inj (found.symm.trans found')
      obtain rfl := FieldType.struct.inj (isStruct.symm.trans isStruct')
      obtain rfl := Option.some.inj (declared.symm.trans declared')
      obtain rfl := Option.some.inj (place.symm.trans place')
      rcases Nat.lt_trichotomy j k with before | rfl | after
      · have := StructDef.offset_before before member inside inside'
        omega
      · exact absurd .here other
      · have := StructDef.offset_before after member' inside' inside
        omega
  | element read start object inside =>
    cases home' with
    | element read' start' => exact absurd (.shared read read' (start.trans start'.symm)) other

end

namespace Built
variable (built : b.Built s h)
include built

/-- What is below a table of the history is a table of the history. -/
theorem known_of_below (typed : h.Typed s) (known : ⟨rev, .table a⟩ ∈ h) {t : Nat × Nat}
    (below : b.finished.data.Below s (b.positionOf rev, a.table) t) :
    ∃ rev' a', ⟨rev', .table a'⟩ ∈ h ∧ t = (b.positionOf rev', a'.table) := by
  induction below with
  | refl => exact ⟨rev, a, known, rfl⟩
  | tail _ member ih =>
    obtain ⟨rev', a', known', rfl⟩ := ih
    rw [built.nested_eq typed known'] at member
    obtain ⟨r, inSettings, rfl⟩ := List.mem_map.mp member
    obtain ⟨a'', isTable, _, place⟩ := built.below known' inSettings
    exact ⟨r, a'', isTable, place⟩

/-- A place that the readers take for an element holds the reference of an item. -/
private theorem exists_item {kind : ObjectKind} {items : List (Ref kind)} {rev stored holder : Nat}
    (laid : b.ReferencesLaid rev (items.map Ref.rev)) (reference : b.Refers stored rev)
    (member : holder ∈ b.finished.data.elementHolders (b.positionOf stored)) :
    ∃ j r element, j < items.length ∧ r ∈ items ∧ b.Refers element r.rev ∧
      b.positionOf element = b.positionOf rev + offsetSize + j * offsetSize ∧
        b.positionOf rev + offsetSize + j * offsetSize = holder := by
  obtain ⟨j, inside, rfl⟩ := (Buffer.mem_elementHolders (reference.target? built.sound)
    (laid.nat? built.sound)).mp member
  obtain ⟨r, inItems, refers, place⟩ := laid.exists_element inside
  rw [List.length_map] at inside
  exact ⟨j, r, _, inside, inItems, refers, place, rfl⟩

section
variable (known : ⟨rev, .table a⟩ ∈ h)
include known

/-- A field that is present is not deprecated, and was set to what it can hold. -/
theorem exists_setting {i holder : Nat} {f : FieldDef} (found : s.field? a.table i = some f)
    (place : b.finished.data.fieldPosition? (b.positionOf rev) i = some holder) :
    f.deprecated = false ∧ ∃ x start stored, a.settings[i]? = some (some x) ∧ x.Fits s f.type ∧
      b.FieldLaid s f.type start stored x ∧ holder = b.positionOf stored := by
  obtain ⟨⟨start, slots, laid⟩, schema⟩ := built.exists_laid known
  obtain ⟨x, f', stored, set, field, fits, _, fieldLaid, rfl⟩ := laid.exists_stored place
  rw [schema] at field fits fieldLaid
  obtain rfl : f = f' := Option.some.inj (found.symm.trans field)
  obtain ⟨f', field', live, _⟩ := (built.fits _ known a rfl).setting i x set
  obtain rfl : f = f' := Option.some.inj (found.symm.trans field')
  exact ⟨live, x, start, stored, set, fits, fieldLaid, rfl⟩

/-- A reference that a table holds, by itself or in a vector, has an area for itself and leads to an
object of the history. -/
theorem exists_reference {type : FieldType} {holder : Nat}
    (holds : b.finished.data.Holds s (b.positionOf rev) a.table type holder)
    (refers : type.isInline = false) :
    (∃ c i, c ∈ h ∧ b.Area s c (some i) holder offsetSize ∧ ¬ c.content.StoresInline s i) ∧
      ∃ object stored, object ∈ h ∧ Fulfils s type object.content ∧ holder = b.positionOf stored ∧
        b.Refers stored object.rev := by
  induction holds with
  | @field i holder f found place =>
    obtain ⟨_, x, start, stored, set, fits, laid, rfl⟩ := built.exists_setting known found place
    cases x with
    | scalar v =>
      have scalar : s.scalarType? f.type = some v.type := fits
      cases type : f.type <;> simp_all [Schema.scalarType?, FieldType.isInline]
    | struct values =>
      obtain ⟨d, struct, _⟩ := fits
      cases type : f.type <;> simp_all [TableArgs.structOf?, FieldType.isInline]
    | reference p =>
      obtain ⟨c, object, fulfils, _⟩ := built.exists_object known set fits
      have area : b.Area s ⟨rev, .table a⟩ (some i) _ _ := .field found place
      rw [(Setting.inlineWidth_of_accepts fits).1] at area
      refine ⟨⟨_, i, known, area, ?_⟩, ⟨p.rev, c⟩, stored, object, fulfils, rfl, laid.refers fits⟩
      rintro ⟨f', found', isInline⟩
      obtain rfl : f = f' := Option.some.inj (found.symm.trans found')
      rw [refers] at isInline
      cases isInline
  | @string vector holder inside member ih =>
    obtain ⟨_, ⟨rev', c⟩, stored, object, fulfils, rfl, reference⟩ := ih rfl
    cases fulfils with
    | scalars scalar => cases scalar
    | @strings items =>
      obtain ⟨j, r, element, inItems, inList, refers, place, rfl⟩ :=
        built.exists_item (built.laid _ object) reference member
      obtain ⟨text, isString, _⟩ := built.grounded.string object inList
      exact ⟨⟨_, j, object, .element rfl inItems, fun inline => inline⟩, _, _, isString, .string,
        place.symm, refers⟩
  | @table vector holder nested inside member ih =>
    obtain ⟨_, ⟨rev', c⟩, stored, object, fulfils, rfl, reference⟩ := ih rfl
    cases fulfils with
    | scalars scalar => cases scalar
    | @tables id items =>
      obtain ⟨j, r, element, inItems, inList, refers, place, rfl⟩ :=
        built.exists_item (built.laid _ object) reference member
      obtain ⟨a', isTable, _⟩ := built.grounded.table object inList
      exact ⟨⟨_, j, object, .element rfl inItems, fun inline => inline⟩, _, _, isTable, .table,
        place.symm, refers⟩

/-- The string that a table refers to. -/
private theorem exists_string {holder target : Nat}
    (holds : b.finished.data.Holds s (b.positionOf rev) a.table .string holder)
    (leads : b.finished.data.target? holder = some target) :
    ∃ text rev', ⟨rev', .string text⟩ ∈ h ∧ target = b.positionOf rev' := by
  obtain ⟨_, ⟨rev', c⟩, stored, object, fulfils, rfl, refers⟩ :=
    built.exists_reference known holds rfl
  obtain rfl := Option.some.inj ((refers.target? built.sound).symm.trans leads)
  cases fulfils with
  | string => exact ⟨_, rev', object, rfl⟩

/-- The bytes that tell the shape of a table lie where no scalar is stored. -/
theorem fixed_of_shape {q k : Nat}
    (shape : b.finished.data.Shape s (b.positionOf rev) a.table q k) : b.Fixed s h q k := by
  obtain ⟨⟨start, slots, laid⟩, schema⟩ := built.exists_laid known
  have whole := laid.vtable.le
  have head {q k : Nat} (low : b.positionOf (rev + (slots.length + 2) * slotSize) ≤ q)
      (high : q + k ≤ b.positionOf rev + offsetSize) : b.Fixed s h q k := by
    refine ⟨_, none, _, _, known, .head laid, low, ?_, by simp⟩
    simp only [positionOf] at high ⊢
    omega
  cases shape with
  | table => exact head (by simp only [positionOf]; omega) (Nat.le_refl _)
  | vtable read =>
    obtain rfl := Option.some.inj (laid.vtable?.symm.trans read)
    refine head (Nat.le_refl _) ?_
    simp only [positionOf, vtableHeader, slotSize, offsetSize] at whole ⊢
    omega
  | entry read counted found inside =>
    obtain rfl := Option.some.inj (laid.vtable?.symm.trans read)
    obtain rfl := Option.some.inj (laid.vtableSize.symm.trans counted)
    refine head (Nat.le_add_right _ _) ?_
    simp only [positionOf, vtableHeader, slotSize, offsetSize] at whole inside ⊢
    omega
  | reference holds refers =>
    obtain ⟨⟨c, i, inHistory, area, noInline⟩, _⟩ := built.exists_reference known holds refers
    refine ⟨c, some i, _, _, inHistory, area, Nat.le_refl _, Nat.le_refl _, ?_⟩
    rintro j ⟨⟩
    exact noInline
  | string holds leads =>
    obtain ⟨text, rev', isString, rfl⟩ := built.exists_string known holds leads
    exact ⟨_, none, _, _, isString, .string, Nat.le_refl _, by omega, by simp⟩
  | terminator holds leads counted =>
    obtain ⟨text, rev', isString, rfl⟩ := built.exists_string known holds leads
    have length := StringLaid.counted (built.laid _ isString) built.sound
    obtain rfl := Option.some.inj (length.symm.trans counted)
    exact ⟨_, none, _, _, isString, .string, by omega, by omega, by simp⟩
  | vector holds leads =>
    obtain ⟨_, object, stored, inHistory, fulfils, rfl, refers⟩ :=
      built.exists_reference known holds rfl
    obtain rfl := Option.some.inj ((refers.target? built.sound).symm.trans leads)
    obtain ⟨count, width, vector⟩ := fulfils.exists_elements
    exact ⟨_, none, _, _, inHistory, .count vector, Nat.le_refl _, Nat.le_refl _, by simp⟩

/-- The bytes of strings lie where no scalar is stored. -/
theorem fixed_of_text {q k : Nat}
    (text : b.finished.data.Text s (b.positionOf rev) a.table q k) : b.Fixed s h q k := by
  obtain ⟨holds, leads, counted⟩ := text
  obtain ⟨text, rev', isString, rfl⟩ := built.exists_string known holds leads
  have length := StringLaid.counted (built.laid _ isString) built.sound
  obtain rfl := Option.some.inj (length.symm.trans counted)
  exact ⟨_, none, _, _, isString, .string, by omega, by omega, by simp⟩

/-- A vector that is read is an object of the history. -/
theorem exists_vector_object {i : Nat} {u : FieldVector}
    (read : TableView.field ⟨b.finished.data, b.positionOf rev⟩ s a.table i = .vector u) :
    ∃ f e holder object, s.field? a.table i = some f ∧ f.deprecated = false ∧ f.type = .vector e ∧
      b.finished.data.fieldPosition? (b.positionOf rev) i = some holder ∧
        b.finished.data.target? holder = some (b.positionOf object.rev) ∧ object ∈ h ∧
          Fulfils s (.vector e) object.content ∧
            u.start = b.positionOf object.rev + offsetSize := by
  obtain ⟨f, holder, target, e, found, type, place, leads, vector⟩ := TableView.exists_vector read
  have holds : b.finished.data.Holds s (b.positionOf rev) a.table f.type holder :=
    .field found place
  rw [type] at holds
  obtain ⟨_, object, stored, inHistory, fulfils, rfl, refers⟩ :=
    built.exists_reference known holds rfl
  have target := refers.target? built.sound
  obtain rfl := Option.some.inj (target.symm.trans leads)
  obtain ⟨_, _, _, rfl⟩ := FieldVector.at?_eq_some_iff.mp vector
  exact ⟨f, e, _, object, found, (built.exists_setting known found place).1, type, place, leads,
    inHistory, fulfils, rfl⟩

end

/-- Where a scalar is stored that can be changed. -/
theorem exists_home {c : Cell} {p : Nat} {type : ScalarType} (known : ⟨rev, .table a⟩ ∈ h)
    (cell : b.finished.data.CellAt s (b.positionOf rev) a.table c p type) :
    ∃ o i, b.Home s h rev a c p type o i := by
  cases cell with
  | field found live scalar place => exact ⟨_, _, .field found scalar place⟩
  | member found live isStruct declared member inside place =>
    exact ⟨_, _, .member found isStruct declared member inside place⟩
  | element found live isVector scalar place leads counted inside =>
    have same : b.finished.data.SameShape s (b.positionOf rev) a.table b.finished.data :=
      ⟨rfl, fun _ _ _ _ _ _ => rfl⟩
    have read := (built.tableAt (o := .standard) known).field_vector same found live isVector place
      leads counted
    obtain ⟨f', e', holder', ⟨rev', content⟩, found', _, isVector', place', leads', object, fulfils,
      start⟩ := built.exists_vector_object known read
    obtain rfl := Option.some.inj (found.symm.trans found')
    obtain rfl := FieldType.vector.inj (isVector.symm.trans isVector')
    obtain rfl := Option.some.inj (place.symm.trans place')
    obtain rfl := Option.some.inj (leads.symm.trans leads')
    cases fulfils with
    | strings | tables => cases scalar
    | @scalars _ t items scalar' =>
      obtain rfl := Option.some.inj (scalar.symm.trans scalar')
      have length := ScalarsLaid.nat? (built.laid _ object) built.sound
      obtain rfl := Option.some.inj (length.symm.trans counted)
      exact ⟨_, _, .element read start object inside⟩

/-- An area of what an object stores lies behind the first two words. -/
theorem data_behind {top : Nat} (spread : b.Spread top h)
    (room : top + offsetSize ≤ b.used.bytes.length) {o : Creation} {i q n : Nat} (known : o ∈ h)
    (area : b.Area s o (some i) q n) : offsetSize + identifierSize ≤ q := by
  have frame {q : Nat} (area : b.Area s o none q offsetSize) : offsetSize ≤ q := by
    have := built.area_behind spread known area
    simp only [positionOf] at this
    omega
  cases area with
  | element vector inside =>
    have := frame (.count vector)
    simp only [offsetSize, identifierSize] at this ⊢
    omega
  | @field rev _ _ a _ found place =>
    obtain ⟨⟨start, slots, laid⟩, _⟩ := built.exists_laid known
    have first := built.area_behind spread known (.head laid)
    have inside := (built.field_inside known laid found place).1
    have whole := laid.vtable.le
    simp only [positionOf, offsetSize, identifierSize] at first inside room ⊢
    omega

/-- Scalars that are the same are stored in the same place. -/
theorem cellAt_of_same {rev' : Nat} {a' : TableArgs} {c c' : Cell} {p : Nat} {type : ScalarType}
    (known : ⟨rev, .table a⟩ ∈ h) (known' : ⟨rev', .table a'⟩ ∈ h)
    (cell : b.finished.data.CellAt s (b.positionOf rev) a.table c p type)
    (same : TableView.SameCell s ⟨b.finished.data, b.positionOf rev⟩ a.table c
      ⟨b.finished.data, b.positionOf rev'⟩ a'.table c') :
    b.finished.data.CellAt s (b.positionOf rev') a'.table c' p type := by
  rcases TableView.sameCell_iff.mp same with
    ⟨view, id, rfl⟩ | ⟨i, i', j, u, u', rfl, rfl, read, read', start⟩
  · rw [← id, ← (TableView.mk.inj view).2]
    exact cell
  · obtain ⟨o, k, home⟩ := built.exists_home known cell
    cases home with
    | @element vector _ _ _ _ items _ read₀ start₀ object inside =>
      obtain rfl := FieldValue.vector.inj (read.symm.trans read₀)
      obtain ⟨f, e, holder, ⟨rev₁, content⟩, found, live, isVector, place, leads, object', fulfils,
        start'⟩ := built.exists_vector_object known' read'
      have position : b.positionOf vector = b.positionOf rev₁ := by
        dsimp only at start'
        omega
      obtain rfl : vector = rev₁ := positionOf_inj (built.laid _ object).trailingPad_lt.2
        (built.laid _ object').trailingPad_lt.2 position
      obtain rfl : Content.scalars type items = content := Option.some.inj
        ((built.grounded.content?_eq_some_iff.mpr object).symm.trans
          (built.grounded.content?_eq_some_iff.mpr object'))
      cases fulfils with
      | scalars scalar =>
        exact .element found live isVector scalar place leads
          (ScalarsLaid.nat? (built.laid _ object) built.sound) inside

omit built in
/-- All bytes that a finished buffer cannot do without are apart from its scalars. -/
theorem isolated {v : Verifier} {root : Nat} (built : b.Built v.schema h) (typed : h.Typed v.schema)
    {top : Nat} (spread : b.Spread top h) (room : top + offsetSize ≤ b.used.bytes.length)
    (known : ⟨root, .table a⟩ ∈ h) :
    v.Isolated b.finished.data ⟨b.positionOf root, a.table⟩ := by
  refine ⟨?_, ?_, ?_, ?_⟩
  · intro t below i f holder found place
    obtain ⟨rev, a', isTable, rfl⟩ := built.known_of_below typed known below
    exact (built.exists_setting isTable found place).1
  · intro position id p n reachable place q k needed
    obtain ⟨rev, a', isTable, same⟩ := built.known_of_below typed known reachable.isBelow
    obtain ⟨rfl, rfl⟩ := Prod.mk.inj same
    obtain ⟨c, type, cell, rfl⟩ := place.exists_cellAt
    obtain ⟨o, i, home⟩ := built.exists_home isTable cell
    obtain ⟨inHistory, inline, q', n', area, low, high⟩ := home.exists_area isTable
    have behind := built.data_behind spread room inHistory area
    have front (few : q + k ≤ offsetSize + identifierSize) : p + type.width ≤ q ∨ q + k ≤ p := by
      omega
    have fixed (given : b.Fixed v.schema h q k) : p + type.width ≤ q ∨ q + k ≤ p := by
      obtain ⟨o', i', p', m, inHistory', area', low', high', noInline⟩ := given
      have apart := built.areas_apart spread inHistory inHistory' area area'
        (not_and_or.mp fun given => noInline i given.2.symm (given.1 ▸ inline))
      omega
    rcases needed with skeleton | ⟨below, text⟩
    · cases skeleton with
      | reference => exact front (by decide)
      | tag =>
        refine front (Nat.add_le_add_left ?_ _)
        rw [Verifier.tag]
        cases v.identifier with
        | none => exact Nat.zero_le _
        | some identifier => exact Nat.le_of_eq identifier.length_eq
      | table below shape =>
        obtain ⟨rev', a'', isTable', rfl⟩ := built.known_of_below typed known below
        exact fixed (built.fixed_of_shape isTable' shape)
    · obtain ⟨rev', a'', isTable', rfl⟩ := built.known_of_below typed known below
      exact fixed (built.fixed_of_text isTable' text)
  · intro t t' below below' c c' p p' type type' cell cell' other
    obtain ⟨rev, a', isTable, rfl⟩ := built.known_of_below typed known below
    obtain ⟨rev', a'', isTable', rfl⟩ := built.known_of_below typed known below'
    obtain ⟨o, i, home⟩ := built.exists_home isTable cell
    obtain ⟨o', i', home'⟩ := built.exists_home isTable' cell'
    by_cases same : o = o' ∧ i = i'
    · obtain ⟨rfl, rfl⟩ := same
      exact home.apart home' other
    · obtain ⟨inHistory, _, q, n, area, low, high⟩ := home.exists_area isTable
      obtain ⟨inHistory', _, q', n', area', low', high'⟩ := home'.exists_area isTable'
      have apart := built.areas_apart spread inHistory inHistory' area area'
        (not_and_or.mp fun given => same ⟨given.1, Option.some.inj given.2⟩)
      omega
  · intro t t' below below' c c' p type cell same
    obtain ⟨rev, a', isTable, rfl⟩ := built.known_of_below typed known below
    obtain ⟨rev', a'', isTable', rfl⟩ := built.known_of_below typed known below'
    exact built.cellAt_of_same isTable isTable' cell same

end Built
end Builder
namespace Construction
variable {s : Schema} {storage : Storage} {steps : List Step} {x : Construction}
  {root : Ref .table} {identifier : Option Identifier} {f : FinishedBuffer} {b' : Builder} {id : Nat}
  {v : Verifier} {session : Session} {changes : List Change} {m : Editing}

/-- Whatever has been changed in a finished buffer, it is accepted again and all that is no scalar reads
as before, and a further change sets the scalar that it is for and no other, an element of a vector
that several fields have being one scalar. -/
theorem intact_of_finish (valid : s.validate = .ok ()) (ran : (start storage).run s steps = x)
    (typed : x.history.Typed s) (isRoot : x.history.tableAt? root.rev = some id)
    (finished : runFrom x.builder (Builder.finish root identifier) = (.ok f, b'))
    (schema : v.schema = s) (known : v.root? = some id)
    (started : Session.start v f.data = .ok session)
    (edited : (Editing.start session).run changes = m) :
    session.root = ⟨b'.positionOf root.rev, id⟩ ∧ m.Intact v f.data session.root ∧
      ∀ change, (m.result? change).isSome → m.SetsOnly v session.root change := by
  subst schema
  have sound := run_sound (Schema.valid_of_validate valid) (start_sound v.schema storage) steps
  rw [ran] at sound
  obtain ⟨top, room, spread⟩ := sound.finish_spread finished
  obtain ⟨rfl, built, rooted⟩ := sound.finish finished
  obtain ⟨a, object, rfl⟩ := built.grounded.tableAt?_eq_some_iff.mp isRoot
  obtain ⟨position, accepted, same⟩ := Editing.start_eq_ok_iff.mp started
  have atRoot : session.root = ⟨b'.positionOf root.rev, a.table⟩ := by
    obtain ⟨_, asked, reference, _⟩ := Verifier.verify_eq_ok_iff.mp accepted
    have leads := rooted.reference.target? built.sound
    rw [Builder.positionOf_length] at leads
    have target : position.position = b'.positionOf root.rev :=
      Option.some.inj (reference.read.symm.trans leads)
    have table : position.table = a.table := Option.some.inj (asked.symm.trans known)
    rw [same, ← target, ← table]
  have isolated := built.isolated typed spread room object
  rw [← atRoot] at isolated
  exact ⟨atRoot, Session.intact_of_run started isolated edited⟩

def pairVerifier : Verifier := .standard {
  nameSpace := ""
  attributes := []
  enums := #[]
  structs := #[]
  tables := #[⟨"Pair", #[
    .plain "first" (.vector (.scalar .ubyte)),
    .plain "second" (.vector (.scalar .ubyte)),
    .plain "count" (.scalar .int)]⟩]
  root := some 0 }

/-- A pair both of whose fields have the same vector. -/
def pair : Construction := (start (.zeros 0 .standard)).run pairVerifier.schema [
  .vector .ubyte [ScalarType.ubyte.value 1, ScalarType.ubyte.value 2],
  .table 0 [.reference "first" ⟨8, .vector (.scalar .ubyte)⟩,
    .reference "second" ⟨8, .vector (.scalar .ubyte)⟩,
    .scalar "count" (ScalarType.int.value 5)]]

def pairBytes : Buffer := #[
  16, 0, 0, 0, 0, 0, 10, 0, 16, 0, 4, 0, 8, 0, 12, 0, 10, 0, 0, 0, 12, 0, 0, 0, 8, 0, 0, 0,
  5, 0, 0, 0, 2, 0, 0, 0, 1, 2]

private theorem pair_finish :
    ∃ f b', runFrom pair.builder (Builder.finish ⟨24⟩ none) = (.ok f, b') ∧ f.data = pairBytes := by
  have data : (runFrom pair.builder (Builder.finish ⟨24⟩ none)).1.toOption.map (·.data) =
      some pairBytes := by decide +kernel
  cases finished : runFrom pair.builder (Builder.finish ⟨24⟩ none) with
  | mk result b' =>
    rw [finished] at data
    cases result with
    | error e => cases data
    | ok f => exact ⟨f, b', rfl, Option.some.inj data⟩

theorem pair_intact :
    ∃ f b' session, runFrom pair.builder (Builder.finish ⟨24⟩ none) = (.ok f, b') ∧
      Session.start pairVerifier f.data = .ok session ∧
        let m := (Editing.start session).run
          [.root, .element 0 0 1 (ScalarType.ubyte.value 9), .field 0 2 (ScalarType.int.value 7)]
        m.Intact pairVerifier f.data session.root ∧
          (m.result? (.element 0 1 0 (ScalarType.ubyte.value 3))).isSome ∧
            m.SetsOnly pairVerifier session.root (.element 0 1 0 (ScalarType.ubyte.value 3)) := by
  obtain ⟨f, b', finished, data⟩ := pair_finish
  obtain ⟨session, started, accepted⟩ : ∃ session, Session.start pairVerifier f.data = .ok session ∧
      (((Editing.start session).run [.root, .element 0 0 1 (ScalarType.ubyte.value 9),
        .field 0 2 (ScalarType.int.value 7)]).result?
          (.element 0 1 0 (ScalarType.ubyte.value 3))).isSome := by
    rw [data]
    exact ⟨_, rfl, rfl⟩
  obtain ⟨_, intact, sets⟩ := intact_of_finish (s := pairVerifier.schema) rfl rfl
    (by decide +kernel) (by decide +kernel) finished rfl rfl started rfl
  exact ⟨f, b', session, finished, started, intact, accepted, sets _ accepted⟩

/-- What is set as an element of the first vector of the pair is then one of the second as well. -/
theorem pair_shared :
    ∃ f b' session, runFrom pair.builder (Builder.finish ⟨24⟩ none) = (.ok f, b') ∧
      Session.start pairVerifier f.data = .ok session ∧
        let m := (Editing.start session).run [.root]
        let change := Change.element 0 0 0 (ScalarType.ubyte.value 9)
        (m.result? change).isSome ∧
          m.Addresses change 16 0 (.element 0 0) (ScalarType.ubyte.value 9) ∧
          TableView.cell? ⟨m.session.buffer, 16⟩ pairVerifier.schema 0 (.element 1 0) =
            some (ScalarType.ubyte.value 1) ∧
          TableView.cell? ⟨(m.step change).session.buffer, 16⟩ pairVerifier.schema 0 (.element 1 0) =
            some (ScalarType.ubyte.value 9) := by
  obtain ⟨⟨data, allocated, head, stop⟩, b', finished, rfl⟩ := pair_finish
  have started : Session.start pairVerifier pairBytes =
      .ok ⟨pairVerifier, pairBytes, ⟨16, 0⟩, Crc32.checksum pairBytes⟩ := rfl
  exact ⟨_, b', _, finished, started, rfl,
    .element (t := ⟨pairVerifier.schema, pairBytes, 16, 0⟩) rfl, rfl, rfl⟩

end Construction
end FlatTable

import FlatTable.Proofs.Builder.Accepted

/-! The bytes of a finished buffer as areas: each object has its frame, which tells its shape, and
areas for what it stores. No two areas share a byte. -/
namespace FlatTable
open Layout

namespace Content

def elements? : Content → Option (Nat × Nat)
  | scalars t items => some (items.length, t.width)
  | strings items => some (items.length, offsetSize)
  | tables items => some (items.length, offsetSize)
  | string _ | table _ => none

/-- Does the object store something by itself there, and no reference? -/
def StoresInline (s : Schema) (i : Nat) : Content → Prop
  | scalars _ _ => True
  | table a => ∃ f, s.field? a.table i = some f ∧ f.type.isInline = true
  | string _ | strings _ | tables _ => False

theorem size?_eq_of_elements? {c : Content} {count width : Nat}
    (h : c.elements? = some (count, width)) : c.size? = some (offsetSize + count * width) := by
  cases c <;> cases h <;> rfl

end Content

namespace Builder
variable {b : Builder} {s : Schema} {h : History} {c c' : Creation} {i : Option Nat} {p n : Nat}

/-- An area of an object in the finished buffer: its frame, or what it stores with a number. The frame
of a string is all of it, that of a vector its length, and that of a table the vtable together with
the distance behind it. -/
inductive Area (b : Builder) (s : Schema) : Creation → Option Nat → Nat → Nat → Prop where
  | string {rev : Nat} {text : String} : Area b s ⟨rev, .string text⟩ none (b.positionOf rev)
      (offsetSize + ((Text.encodeUtf8 text).length + 1))
  | count {c : Creation} {count width : Nat} (vector : c.content.elements? = some (count, width)) :
      Area b s c none (b.positionOf c.rev) offsetSize
  | element {c : Creation} {count width j : Nat}
      (vector : c.content.elements? = some (count, width)) (inside : j < count) :
      Area b s c (some j) (b.positionOf c.rev + offsetSize + j * width) width
  | head {rev start : Nat} {a : TableArgs} {slots : List Nat}
      (laid : b.TableLaid rev a start slots) :
      Area b s ⟨rev, .table a⟩ none (b.positionOf (rev + (slots.length + 2) * slotSize))
        ((slots.length + 2) * slotSize + offsetSize)
  | field {rev i holder : Nat} {a : TableArgs} {f : FieldDef}
      (found : s.field? a.table i = some f)
      (place : b.finished.data.fieldPosition? (b.positionOf rev) i = some holder) :
      Area b s ⟨rev, .table a⟩ (some i) holder (s.inlineWidth f.type)

/-- An element ends before the next ones begin. -/
private theorem element_before {width j k position : Nat} (before : j < k) :
    position + j * width + width ≤ position + k * width := by
  have upTo : (j + 1) * width ≤ k * width := Nat.mul_le_mul_right _ before
  rw [Nat.succ_mul] at upTo
  omega

namespace Built
variable (built : b.Built s h)
include built

theorem exists_laid {rev : Nat} {a : TableArgs} (known : ⟨rev, .table a⟩ ∈ h) :
    (∃ start slots, b.TableLaid rev a start slots) ∧ a.schema = s :=
  ⟨built.laid _ known, (built.fits _ known a rfl).schema⟩

/-- A field is stored behind the frame of its table, and within the table. -/
theorem field_inside {rev start j holder : Nat} {a : TableArgs} {slots : List Nat}
    {f : FieldDef} (known : ⟨rev, .table a⟩ ∈ h) (laid : b.TableLaid rev a start slots)
    (found : s.field? a.table j = some f)
    (place : b.finished.data.fieldPosition? (b.positionOf rev) j = some holder) :
    b.positionOf rev + offsetSize ≤ holder ∧
      holder + s.inlineWidth f.type ≤ b.positionOf start := by
  have schema := (built.exists_laid known).2
  obtain ⟨x, f', stored, _, field, _, inside, fieldLaid, rfl⟩ := laid.exists_stored place
  rw [schema] at field fieldLaid
  obtain rfl : f = f' := Option.some.inj (found.symm.trans field)
  have inFront := laid.back.le
  have bounds := fieldLaid.inside
  simp only [positionOf]
  omega

/-- An area lies within its object. -/
theorem area_inside (known : c ∈ h) (area : b.Area s c i p n) {lo hi : Nat}
    (spans : b.Spans c lo hi) : b.positionOf hi ≤ p ∧ p + n ≤ b.positionOf lo := by
  have inFront := (built.laid c known).trailingPad_lt.2
  cases area with
  | string =>
    cases spans with
    | block size fits =>
      cases size
      dsimp only at inFront fits ⊢
      simp only [positionOf]
      omega
  | count vector =>
    cases spans with
    | block size fits =>
      obtain rfl := Option.some.inj (size.symm.trans (Content.size?_eq_of_elements? vector))
      simp only [positionOf]
      omega
    | table => cases vector
  | element vector inside =>
    cases spans with
    | block size fits =>
      obtain rfl := Option.some.inj (size.symm.trans (Content.size?_eq_of_elements? vector))
      have upTo := @element_before n _ _ 0 inside
      simp only [positionOf]
      omega
    | table => cases vector
  | head laid =>
    obtain ⟨rfl, rfl⟩ := spans.unique (.table laid)
    have room := laid.room
    have whole := laid.vtable.le
    simp only [positionOf]
    omega
  | @field rev i holder a f found place =>
    cases spans with
    | block size => cases size
    | table laid =>
      obtain ⟨behind, within⟩ := built.field_inside known laid found place
      simp only [positionOf] at behind within ⊢
      omega

/-- Two areas of one object share no byte. -/
private theorem areas_apart_within {k : Option Nat} {q m : Nat} (known : c ∈ h)
    (area : b.Area s c i p n) (area' : b.Area s c k q m) (other : i ≠ k) :
    p + n ≤ q ∨ q + m ≤ p := by
  cases area with
  | string =>
    cases area' with
    | string => exact absurd rfl other
    | count vector | element vector => cases vector
  | count vector =>
    cases area' with
    | string => cases vector
    | count => exact absurd rfl other
    | element => exact .inl (Nat.le_add_right _ _)
    | head => exact absurd rfl other
    | field => cases vector
  | element vector inside =>
    cases area' with
    | string => cases vector
    | count => exact .inr (Nat.le_add_right _ _)
    | element vector' =>
      obtain ⟨rfl, rfl⟩ := Prod.mk.inj (Option.some.inj (vector.symm.trans vector'))
      rcases Nat.lt_or_gt_of_ne fun same => other (congrArg some same) with before | after
      · exact .inl (element_before before)
      · exact .inr (element_before after)
    | head => cases vector
    | field => cases vector
  | head laid =>
    cases area' with
    | count => exact absurd rfl other
    | element vector => cases vector
    | head => exact absurd rfl other
    | field found place =>
      obtain ⟨behind, _⟩ := built.field_inside known laid found place
      have whole := laid.vtable.le
      simp only [positionOf] at behind ⊢
      omega
  | field found place =>
    cases area' with
    | count vector | element vector => cases vector
    | head laid =>
      obtain ⟨behind, _⟩ := built.field_inside known laid found place
      have whole := laid.vtable.le
      simp only [positionOf] at behind ⊢
      omega
    | field found' place' =>
      obtain ⟨⟨start, slots, laid⟩, rfl⟩ := built.exists_laid known
      rcases Nat.lt_or_gt_of_ne fun same => other (congrArg some same) with before | after
      · exact .inl (laid.place_before before found place place')
      · exact .inr (laid.place_before after found' place' place)

/-- Different areas share no byte. -/
theorem areas_apart {top : Nat} (spread : b.Spread top h) {k : Option Nat} {q m : Nat}
    (known : c ∈ h) (known' : c' ∈ h) (area : b.Area s c i p n) (area' : b.Area s c' k q m)
    (other : c ≠ c' ∨ i ≠ k) : p + n ≤ q ∨ q + m ≤ p := by
  by_cases same : c = c'
  · subst same
    exact built.areas_apart_within known area area' (other.resolve_left (not_not.mpr rfl))
  · obtain ⟨lo, hi, spans⟩ := spread.exists_spans known
    obtain ⟨lo', hi', spans'⟩ := spread.exists_spans known'
    obtain ⟨first, last⟩ := built.area_inside known area spans
    obtain ⟨first', last'⟩ := built.area_inside known' area' spans'
    have apart := spread.apart known known' same spans spans'
    simp only [positionOf] at first last first' last'
    omega

/-- Every area lies behind the bytes in front of all objects. -/
theorem area_behind {top : Nat} (spread : b.Spread top h) (known : c ∈ h)
    (area : b.Area s c i p n) : b.positionOf top ≤ p := by
  obtain ⟨lo, hi, spans⟩ := spread.exists_spans known
  obtain ⟨first, _⟩ := built.area_inside known area spans
  have behind := spread.behind known spans
  simp only [positionOf] at first ⊢
  omega

end Built
end Builder
end FlatTable

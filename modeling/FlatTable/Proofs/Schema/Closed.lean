import FlatTable.Proofs.Convert.Refused
import FlatTable.Proofs.Verify.Resolved
import FlatTable.Proofs.View.Sound

/-! Schemas in which every reference leads somewhere: what reading, checking and building fall back to where
one does not is never come to. -/
namespace FlatTable
open Build

/-- No part of the library meets a reference of the schema that leads nowhere. -/
structure Schema.Closed (s : Schema) : Prop where
  /-- The only table that a verifier misses is the root. -/
  root : ∀ (v : Verifier) (b : Buffer), v.schema = s → v.verify b = .error .noRootType →
    (∃ id, v.rootTable = some id ∧ s.tables.size ≤ id) ∨ (v.rootTable = none ∧ s.rootTable? = none)
  /-- None is missing at a table of the schema or below it. -/
  nested : ∀ (w : Walk) (levels position id count : Nat), w.schema = s → id < s.tables.size →
    w.table levels position id count ≠ .error .noRootType
  /-- Building from JSON blames the document or the builder. -/
  json : ∀ id < s.tables.size, ∀ json b e b',
    runFrom b (Builder.buildTable s id json) = (.error e, b') → e.Blames s json
  /-- Creating a table misses no field and no table. -/
  table : ∀ a : TableArgs, a.Fits s → ∀ b e b',
    runFrom b (Builder.createTable a) = (.error e, b') → e.IsInner
  /-- A scalar or an enum is absent only if it is deprecated. -/
  absent : ∀ (t : TableView) (id i : Nat) (f : FieldDef), s.field? id i = some f → f.type.isFixedWidth →
    t.field s id i = .absent → f.deprecated = true
  /-- One that is not stored reads as a default of its own type. -/
  default : ∀ (t : TableView) (id i : Nat) (f : FieldDef), s.field? id i = some f → f.type.isFixedWidth →
    f.deprecated = false → ∃ type d, s.scalarType? f.type = some type ∧ s.fieldDefault? id i = some d ∧
      d.type = type ∧ ((t.buffer.fieldPosition? t.position i).bind (t.buffer.value? type) = none →
        t.field s id i = .scalar d)
  /-- Fields have a width, and an alignment that it is a multiple of. -/
  layout : ∀ id i f, s.field? id i = some f → 0 < s.inlineWidth f.type ∧
    s.inlineAlignment f.type ∣ s.inlineWidth f.type ∧ s.inlineAlignment f.type ∈ [1, 2, 4, 8]

namespace Schema.Valid
variable {s : Schema} (valid : s.Valid) {id i : Nat} {f : FieldDef}
include valid

private theorem root_of_noRootType {v : Verifier} {b : Buffer} (schema : v.schema = s)
    (refused : v.verify b = .error .noRootType) :
    (∃ id, v.rootTable = some id ∧ s.tables.size ≤ id) ∨ (v.rootTable = none ∧ s.rootTable? = none) := by
  subst schema
  have missing := Verifier.root?_of_noRootType valid refused
  unfold Verifier.root? at missing
  cases asked : v.rootTable with
  | none => exact .inr ⟨rfl, by rwa [asked] at missing⟩
  | some id =>
    rw [asked] at missing
    refine .inl ⟨id, rfl, Nat.le_of_not_lt fun known => ?_⟩
    simp [known] at missing

/-- Where a scalar or enum field is not stored it reads as its default. -/
private theorem exists_default (t : TableView) (found : s.field? id i = some f)
    (fixed : f.type.isFixedWidth) (live : f.deprecated = false) :
    ∃ type d, s.scalarType? f.type = some type ∧ s.fieldDefault? id i = some d ∧ d.type = type ∧
      ((t.buffer.fieldPosition? t.position i).bind (t.buffer.value? type) = none →
        t.field s id i = .scalar d) := by
  obtain ⟨type, scalar⟩ := valid.scalarType found fixed
  obtain ⟨d, default, same⟩ := valid.fieldDefault found scalar
  refine ⟨type, d, scalar, default, same, fun missing => ?_⟩
  rw [TableView.field_of_scalar found live scalar, TableView.scalarField?, missing, default]
  rfl

private theorem deprecated_of_absent {t : TableView} (found : s.field? id i = some f)
    (fixed : f.type.isFixedWidth) (absent : t.field s id i = .absent) : f.deprecated = true := by
  cases live : f.deprecated with
  | true => rfl
  | false =>
    exfalso
    obtain ⟨type, d, scalar, default, _, missing⟩ := valid.exists_default t found fixed live
    cases stored : (t.buffer.fieldPosition? t.position i).bind (t.buffer.value? type) with
    | none => exact nomatch absent.symm.trans (missing stored)
    | some v =>
      rw [TableView.field_of_scalar found live scalar, TableView.scalarField?, stored] at absent
      cases absent

private theorem layout_of_field (found : s.field? id i = some f) :
    0 < s.inlineWidth f.type ∧ s.inlineAlignment f.type ∣ s.inlineWidth f.type ∧
      s.inlineAlignment f.type ∈ [1, 2, 4, 8] := by
  have powers {n : Nat} (divides : n ∣ 8) : n ∈ [1, 2, 4, 8] := by
    obtain ⟨k, small, rfl⟩ := Layout.eq_two_pow_of_dvd_eight divides
    obtain rfl | rfl | rfl | rfl : k = 0 ∨ k = 1 ∨ k = 2 ∨ k = 3 := by omega
    all_goals decide
  have reference : 0 < Layout.offsetSize ∧ Layout.offsetSize ∣ Layout.offsetSize ∧
      Layout.offsetSize ∈ [1, 2, 4, 8] := by decide
  have scalar {t : ScalarType} (type : s.scalarType? f.type = some t) :
      0 < t.width ∧ t.width ∣ t.width ∧ t.width ∈ [1, 2, 4, 8] :=
    ⟨t.width_pos, Nat.dvd_refl _, powers t.width_dvd_eight⟩
  cases type : f.type with
  | string | vector _ | table _ => exact reference
  | scalar t => exact scalar (by rw [type]; rfl)
  | enum id =>
    obtain ⟨t, enum⟩ := valid.scalarType found (by rw [type]; rfl)
    have width := Schema.inlineWidth_of_scalar enum
    rw [type] at width
    change _ ∧ s.inlineWidth (.enum id) ∣ _ ∧ s.inlineWidth (.enum id) ∈ _
    rw [width]
    exact scalar enum
  | struct id =>
    obtain ⟨d, isStruct, validStruct⟩ := valid.struct found type
    simp only [Schema.inlineWidth, Schema.inlineAlignment, isStruct, Option.map_some, Option.getD_some]
    exact ⟨StructDef.size_pos validStruct.nonempty, d.alignment_dvd_size, powers d.alignment_dvd_eight⟩

end Schema.Valid

/-- Validation leaves no reference that leads nowhere. -/
theorem Schema.closed_of_validate {s : Schema} (valid : s.validate = .ok ()) : s.Closed := by
  have valid := valid_of_validate valid
  refine ⟨fun v b => valid.root_of_noRootType, ?_, fun id known json => valid.buildTable_raises id known json,
    fun a fits => Builder.createTable_raises fits, fun t id i f => valid.deprecated_of_absent,
    fun t id i f => valid.exists_default t, fun id i f => valid.layout_of_field⟩
  intro w levels position id count schema known
  subst schema
  exact Walk.table_ne_noRootType valid levels position count known

theorem Verifier.nodes_closed :
    nodeVerifier.schema.validate = .ok () ∧ nodeVerifier.schema.Closed :=
  ⟨rfl, Schema.closed_of_validate rfl⟩

end FlatTable

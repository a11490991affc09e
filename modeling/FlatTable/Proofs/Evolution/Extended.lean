import FlatTable.Proofs.View.Rendered

/-! Schemas that have grown: declarations are added behind those that there are, and fields behind the
fields of a table. -/
namespace FlatTable

/-- `s'` is `s` with further enums, structs and tables, and with further fields at the end of tables. -/
structure Schema.ExtendedBy (s s' : Schema) : Prop where
  enums : s.enums.toList <+: s'.enums.toList
  structs : s.structs.toList <+: s'.structs.toList
  tables : ∀ (id : Nat) (t : TableDef), s.tables[id]? = some t → ∃ t', s'.tables[id]? = some t' ∧ t'.name = t.name ∧
    t.fields.toList <+: t'.fields.toList
  root : s'.root = s.root

private theorem getElem?_of_prefix {α : Type} {l l' : Array α} (sub : l.toList <+: l'.toList) {i : Nat}
    (inside : i < l.size) : l'[i]? = l[i]? := by
  obtain ⟨added, same⟩ := sub
  rw [← Array.getElem?_toList, ← Array.getElem?_toList, ← same,
    List.getElem?_append_left (by simpa using inside)]

namespace Schema.ExtendedBy
variable {s s' : Schema} (extended : s.ExtendedBy s')
include extended

theorem enum {id : Nat} (known : id < s.enums.size) : s'.enums[id]? = s.enums[id]? :=
  getElem?_of_prefix extended.enums known

theorem struct {id : Nat} (known : id < s.structs.size) : s'.structs[id]? = s.structs[id]? :=
  getElem?_of_prefix extended.structs known

theorem size_le : s.tables.size ≤ s'.tables.size := by
  by_contra more
  obtain ⟨t', found, _⟩ := extended.tables s'.tables.size _ (Array.getElem?_eq_getElem (by omega))
  simp at found

/-- Fields keep their numbers. -/
theorem field? {id i : Nat} {f : FieldDef} (h : s.field? id i = some f) : s'.field? id i = some f := by
  obtain ⟨t, isTable, isField⟩ := Option.bind_eq_some_iff.mp h
  obtain ⟨t', isTable', _, sub⟩ := extended.tables id t isTable
  have inside := (Array.getElem?_eq_some_iff.mp isField).1
  rw [Schema.field?, isTable', Option.bind_some, getElem?_of_prefix sub inside, isField]

section
variable {type : FieldType} (resolves : s.Resolves type)
include resolves

/-! What a type means that refers to declarations of the smaller schema. -/

theorem scalarType? : s'.scalarType? type = s.scalarType? type := by
  cases type with
  | enum id => rw [Schema.scalarType?, underlying?, extended.enum (resolves .enum id rfl)]; rfl
  | scalar _ | string | vector _ | table _ | struct _ => rfl

theorem inlineWidth : s'.inlineWidth type = s.inlineWidth type := by
  have scalar := extended.scalarType? resolves
  cases type with
  | struct id => rw [Schema.inlineWidth, extended.struct (resolves .struct id rfl)]; rfl
  | scalar _ | enum _ | string | vector _ | table _ => simp only [Schema.inlineWidth, scalar]

theorem inlineAlignment : s'.inlineAlignment type = s.inlineAlignment type := by
  have width := extended.inlineWidth resolves
  cases type with
  | struct id => rw [Schema.inlineAlignment, extended.struct (resolves .struct id rfl)]; rfl
  | scalar _ | enum _ | string | vector _ | table _ => simp only [Schema.inlineAlignment, width]

theorem enumOf? {id : Nat} (h : Schema.enumOf? type = some id) : s'.enums[id]? = s.enums[id]? := by
  refine extended.enum (resolves .enum id ?_)
  unfold Schema.enumOf? at h
  split at h
  · cases h; rfl
  · cases h; rfl
  · cases h

end

theorem elementScalarType? {e : ElementType} (resolves : s.Resolves (.vector e)) :
    s'.elementScalarType? e = s.elementScalarType? e := by
  cases e with
  | enum id => rw [Schema.elementScalarType?, underlying?, extended.enum (resolves .enum id rfl)]; rfl
  | scalar _ | string | table _ => rfl

theorem elementWidth {e : ElementType} (resolves : s.Resolves (.vector e)) :
    s'.elementWidth e = s.elementWidth e := by
  rw [Schema.elementWidth, extended.elementScalarType? resolves, Schema.elementWidth]

section
variable (valid : s.Valid) {t : TableView} {id i : Nat} {f : FieldDef}
include valid

theorem fieldDefault? (h : s.field? id i = some f) : s'.fieldDefault? id i = s.fieldDefault? id i := by
  simp only [Schema.fieldDefault?, extended.field? h, h, Option.bind_eq_bind, Option.bind_some,
    extended.scalarType? (valid.field h).1]

omit valid in
private theorem stored? {type : FieldType} (resolves : s.Resolves type) :
    t.stored? s' type = t.stored? s type := by
  funext pos
  cases type with
  | scalar _ | enum _ | string | table _ => rfl
  | struct id => simp only [TableView.stored?, extended.inlineWidth resolves]
  | vector e =>
    have vector : FieldVector.at? s' t.buffer e = FieldVector.at? s t.buffer e := by
      funext start
      rw [FieldVector.at?, extended.elementWidth resolves, extended.elementScalarType? resolves,
        FieldVector.at?]
    rw [TableView.stored?, vector, TableView.stored?]

/-- A field reads the same by both schemas. -/
theorem field (h : s.field? id i = some f) : t.field s' id i = t.field s id i := by
  have resolves := (valid.field h).1
  have scalar := extended.scalarType? resolves
  have stored : t.stored? s' f.type = t.stored? s f.type := extended.stored? resolves
  have scalarField : t.scalarField? s' id i = t.scalarField? s id i := by
    funext type
    rw [TableView.scalarField?, extended.fieldDefault? valid h, TableView.scalarField?]
  simp only [TableView.field, h, extended.field? h]
  cases type : f.type with
  | scalar _ | enum _ => simp only [← type, scalar, scalarField]
  | string | vector _ | table _ | struct _ => simp only [← type, stored]

end
end Schema.ExtendedBy
end FlatTable

import FlatTable.Proofs.Mutate.Places

/-! Whether the places of a buffer that can be changed are apart from the bytes that it cannot do
without, and how that is computed from a list of its tables. -/
namespace FlatTable
open Layout

/-- No place that can be changed shares a byte with the skeleton or with a string. -/
def Verifier.Apart (v : Verifier) (b : Buffer) (root : Root) : Prop :=
  ∀ position id p n, b.Reachable v.schema root position id → b.Place v.schema position id p n →
    ∀ q k, v.Skeleton b root q k ∨ v.Texts b root q k → p + n ≤ q ∨ q + k ≤ p

namespace Buffer

/-- The bytes from `p` on lie within one of the ranges, each of which is a start and a length. -/
def Covered (ranges : List (Nat × Nat)) (p n : Nat) : Prop :=
  ∃ r ∈ ranges, r.1 ≤ p ∧ p + n ≤ r.1 + r.2

theorem Covered.mono {ranges more : List (Nat × Nat)} {p n : Nat} (h : Covered ranges p n)
    (subset : ranges ⊆ more) : Covered more p n := by
  obtain ⟨r, member, within⟩ := h
  exact ⟨r, subset member, within⟩

theorem covered_of_mem {ranges : List (Nat × Nat)} {p n : Nat} (member : (p, n) ∈ ranges) :
    Covered ranges p n :=
  ⟨_, member, Nat.le_refl _, Nat.le_refl _⟩

section
variable (b : Buffer) (s : Schema) (position id : Nat)

def storedFields : List (FieldDef × Nat) :=
  match s.tables[id]? with
  | none => []
  | some t => t.fields.toList.zipIdx.filterMap fun (f, i) =>
      (b.fieldPosition? position i).map (f, ·)

def holdersAt (type : FieldType) (holder : Nat) : List (FieldType × Nat) :=
  (type, holder) :: match type with
    | .vector .string => (b.elementHolders holder).map (.string, ·)
    | .vector (.table nested) => (b.elementHolders holder).map (.table nested, ·)
    | _ => []

def holders : List (FieldType × Nat) :=
  (b.storedFields s position id).flatMap fun (f, holder) => b.holdersAt f.type holder

/-- A reference and what it leads to, unless that is a table: a string with its length and its
terminator, or the length of a vector. -/
def referenceParts (type : FieldType) (holder : Nat) : List (Nat × Nat) :=
  if type.isInline then [] else
    (holder, offsetSize) :: match type, b.target? holder with
      | .string, some target => [(target, offsetSize + (b.nat? target offsetSize).getD 0 + 1)]
      | .vector _, some target => [(target, offsetSize)]
      | _, _ => []

def vtableParts : List (Nat × Nat) :=
  match b.vtable? position with
  | none => []
  | some vtable => [(vtable, max vtableHeader ((b.nat? vtable slotSize).getD 0))]

def tableParts : List (Nat × Nat) :=
  (position, offsetSize) :: b.vtableParts position ++
    (b.holders s position id).flatMap fun (type, holder) => b.referenceParts type holder

def fieldPlaces (f : FieldDef) (holder : Nat) : List (Nat × Nat) :=
  if f.deprecated then [] else
    match f.type with
    | .scalar _ | .enum _ | .struct _ => [(holder, s.inlineWidth f.type)]
    | .vector e =>
      match s.elementScalarType? e, b.target? holder with
      | some type, some target =>
        [(target + offsetSize, (b.nat? target offsetSize).getD 0 * type.width)]
      | _, _ => []
    | .string | .table _ => []

def tablePlaces : List (Nat × Nat) :=
  (b.storedFields s position id).flatMap fun (f, holder) => b.fieldPlaces s f holder

end

variable {b : Buffer} {s : Schema} {position id : Nat}

theorem mem_storedFields {f : FieldDef} {holder : Nat} :
    (f, holder) ∈ b.storedFields s position id ↔
      ∃ i, s.field? id i = some f ∧ b.fieldPosition? position i = some holder := by
  unfold storedFields
  split
  · rename_i unknown
    simp [Schema.field?, unknown]
  · rename_i t table
    simp only [List.mem_filterMap, Option.map_eq_some_iff, Prod.exists, Prod.mk.injEq,
      Schema.mem_zipIdx_fields table]
    constructor
    · rintro ⟨f, i, found, holder, place, rfl, rfl⟩
      exact ⟨i, found, place⟩
    · rintro ⟨i, found, place⟩
      exact ⟨f, i, found, holder, place, rfl, rfl⟩

theorem mem_holders {type : FieldType} {holder : Nat}
    (holds : b.Holds s position id type holder) : (type, holder) ∈ b.holders s position id := by
  -- a vector that is held is that of a field, since the elements of vectors are no vectors
  have vector {e : ElementType} {vector : Nat} (ih : (.vector e, vector) ∈ b.holders s position id) :
      b.holdersAt (.vector e) vector ⊆ b.holders s position id := by
    obtain ⟨⟨f, place⟩, stored, member⟩ := List.mem_flatMap.mp ih
    have same : (FieldType.vector e, vector) = (f.type, place) := by
      rcases List.mem_cons.mp member with same | element
      · exact same
      · split at element <;> simp at element
    obtain ⟨type, rfl⟩ := Prod.mk.inj same
    rw [type]
    exact fun x inside => List.mem_flatMap.mpr ⟨_, stored, inside⟩
  induction holds with
  | field found place =>
    exact List.mem_flatMap.mpr ⟨_, mem_storedFields.mpr ⟨_, found, place⟩, List.mem_cons_self ..⟩
  | string _ member ih =>
    exact vector ih (List.mem_cons_of_mem _ (List.mem_map.mpr ⟨_, member, rfl⟩))
  | table _ member ih =>
    exact vector ih (List.mem_cons_of_mem _ (List.mem_map.mpr ⟨_, member, rfl⟩))

private theorem covered_of_holds {type : FieldType} {holder p n : Nat}
    (holds : b.Holds s position id type holder) (covered : Covered (b.referenceParts type holder) p n) :
    Covered (b.tableParts s position id) p n :=
  covered.mono fun _ member => List.mem_append_right _
    (List.mem_flatMap.mpr ⟨_, mem_holders holds, member⟩)

/-- A string is covered with its length and its terminator. -/
private theorem covered_of_string {holder target p n : Nat}
    (holds : b.Holds s position id .string holder) (leads : b.target? holder = some target)
    (first : target ≤ p)
    (last : p + n ≤ target + (offsetSize + (b.nat? target offsetSize).getD 0 + 1)) :
    Covered (b.tableParts s position id) p n := by
  refine covered_of_holds holds ⟨(target, _), ?_, first, last⟩
  simp [referenceParts, FieldType.isInline, leads]

/-- The shape of a table is covered by its parts. -/
theorem Shape.covered {p n : Nat} (h : b.Shape s position id p n) :
    Covered (b.tableParts s position id) p n := by
  have vtable {vtable p n : Nat} (read : b.vtable? position = some vtable) (first : vtable ≤ p)
      (last : p + n ≤ vtable + max vtableHeader ((b.nat? vtable slotSize).getD 0)) :
      Covered (b.tableParts s position id) p n := by
    refine ⟨(vtable, _), List.mem_append_left _ (List.mem_cons_of_mem _ ?_), first, last⟩
    simp [vtableParts, read]
  cases h with
  | table => exact covered_of_mem (List.mem_cons_self ..)
  | vtable read => exact vtable read (Nat.le_refl _) (by omega)
  | entry read counted found inside =>
    refine vtable read (Nat.le_add_right _ _) ?_
    rw [counted, Option.getD_some]
    omega
  | reference holds refers =>
    refine covered_of_holds holds (covered_of_mem ?_)
    simp [referenceParts, refers]
  | string holds leads => exact covered_of_string holds leads (Nat.le_refl _) (by omega)
  | terminator holds leads counted =>
    refine covered_of_string holds leads (by omega) ?_
    rw [counted, Option.getD_some]
    omega
  | vector holds leads =>
    refine covered_of_holds holds (covered_of_mem ?_)
    simp [referenceParts, FieldType.isInline, leads]

/-- The strings of a table are covered by its parts. -/
theorem Text.covered {p n : Nat} (h : b.Text s position id p n) :
    Covered (b.tableParts s position id) p n := by
  obtain ⟨holds, leads, counted⟩ := h
  refine covered_of_string holds leads (Nat.le_add_right _ _) ?_
  rw [counted, Option.getD_some]
  omega

/-- What can be changed of a table is covered by its places. -/
theorem Place.covered {p n : Nat} (h : b.Place s position id p n) :
    Covered (b.tablePlaces s position id) p n := by
  have field {i holder : Nat} {f : FieldDef} (found : s.field? id i = some f)
      (place : b.fieldPosition? position i = some holder)
      (covered : Covered (b.fieldPlaces s f holder) p n) :
      Covered (b.tablePlaces s position id) p n :=
    covered.mono fun _ member => List.mem_flatMap.mpr
      ⟨_, mem_storedFields.mpr ⟨i, found, place⟩, member⟩
  cases h with
  | @field i holder f type found live scalar place =>
    refine field found place (covered_of_mem ?_)
    cases kind : f.type with
    | scalar | enum =>
      rw [kind] at scalar
      simp [fieldPlaces, live, kind, Schema.inlineWidth, scalar]
    | string | vector | table | struct =>
      rw [kind] at scalar
      cases scalar
  | @member i j holder offset f struct d m found live isStruct declared member inside place =>
    refine field found place ⟨(holder, d.size), ?_, Nat.le_add_right _ _, ?_⟩
    · simp [fieldPlaces, live, isStruct, Schema.inlineWidth, declared]
    · have fits := StructDef.offset_add_width_le_size member inside
      dsimp only
      omega
  | @element i j holder target length f e type found live isVector scalar place leads counted
      inside =>
    refine field found place ⟨(target + offsetSize, length * type.width), ?_, ?_⟩
    · simp [fieldPlaces, live, isVector, scalar, leads, counted]
    · have fits : (j + 1) * type.width ≤ length * type.width := Nat.mul_le_mul_right _ inside
      rw [Nat.succ_mul] at fits
      dsimp only
      omega

end Buffer

namespace Buffer

def closedFrom (first : Nat × Nat) (next : Nat × Nat → List (Nat × Nat))
    (tables : List (Nat × Nat)) : Bool :=
  tables.contains first && tables.all fun t => (next t).all tables.contains

theorem mem_of_closedFrom {first t : Nat × Nat} {next : Nat × Nat → List (Nat × Nat)}
    {tables : List (Nat × Nat)} (closed : closedFrom first next tables)
    (reached : Relation.ReflTransGen (fun t c => c ∈ next t) first t) : t ∈ tables := by
  simp only [closedFrom, Bool.and_eq_true, List.contains_iff_mem, List.all_eq_true] at closed
  induction reached with
  | refl => exact closed.1
  | tail _ member ih => exact closed.2 _ ih _ member

end Buffer

namespace Verifier
variable (v : Verifier) (b : Buffer) (root : Root) (tables : List (Nat × Nat))

def parts : List (Nat × Nat) :=
  (0, offsetSize) :: (offsetSize, v.tag.length) ::
    tables.flatMap fun t => b.tableParts v.schema t.1 t.2

/-- The tables are all that the root leads to, and their places are apart from all parts. -/
def checkApart : Bool :=
  Buffer.closedFrom (root.position, root.table) (fun t => b.nested v.schema t.1 t.2) tables &&
    tables.all fun t => (b.tablePlaces v.schema t.1 t.2).all fun place =>
      (v.parts b tables).all fun part =>
        place.1 + place.2 ≤ part.1 || part.1 + part.2 ≤ place.1

variable {v b root tables}

theorem covered_of_needed {p n : Nat}
    (all : ∀ t, b.Below v.schema (root.position, root.table) t → t ∈ tables)
    (needed : v.Skeleton b root p n ∨ v.Texts b root p n) : Buffer.Covered (v.parts b tables) p n := by
  have table {t : Nat × Nat} (below : b.Below v.schema (root.position, root.table) t)
      (covered : Buffer.Covered (b.tableParts v.schema t.1 t.2) p n) :
      Buffer.Covered (v.parts b tables) p n :=
    covered.mono fun _ member => List.mem_cons_of_mem _ (List.mem_cons_of_mem _
      (List.mem_flatMap.mpr ⟨t, all t below, member⟩))
  rcases needed with skeleton | ⟨below, text⟩
  · cases skeleton with
    | reference => exact Buffer.covered_of_mem (List.mem_cons_self ..)
    | tag => exact Buffer.covered_of_mem (List.mem_cons_of_mem _ (List.mem_cons_self ..))
    | table below shape => exact table below shape.covered
  · exact table below text.covered

/-- What the check accepts is apart. -/
theorem apart_of_checkApart (tables : List (Nat × Nat)) (checked : v.checkApart b root tables) :
    v.Apart b root := by
  obtain ⟨closed, apart⟩ := (Bool.and_eq_true _ _).mp checked
  simp only [List.all_eq_true, Bool.or_eq_true, decide_eq_true_eq] at apart
  intro position id p n reachable place q k needed
  obtain ⟨r, ofTable, first, last⟩ := place.covered
  obtain ⟨r', part, first', last'⟩ :=
    covered_of_needed (fun _ => Buffer.mem_of_closedFrom closed) needed
  have known := Buffer.mem_of_closedFrom closed reachable.isBelow
  have away := apart _ known r ofTable r' part
  omega

end Verifier
end FlatTable

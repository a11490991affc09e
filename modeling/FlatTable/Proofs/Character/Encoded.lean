import FlatTable.Proofs.Character.Draft
import FlatTable.Proofs.Convert.Reread

/-! Characters as JSON. Whatever the order of its members, it is read as a draft that sets the fields of the
character. -/
namespace FlatTable
open Layout Build Builder

namespace ScalarType
variable {t : ScalarType} {n : Nat}

/-- A pattern of the type's width is kept as it is. -/
theorem pattern_ofBitVec (patterns : t.patterns = 2 ^ n) (b : BitVec n) :
    (t.ofBitVec b).pattern = b.toNat :=
  normalize_of_lt (patterns ▸ b.isLt)

theorem ofBitVec_pattern (patterns : t.patterns = 2 ^ n) {v : Value} (type : v.type = t) :
    t.ofBitVec (.ofNat n v.pattern) = v := by
  subst type
  have fits := v.fits
  rw [patterns] at fits
  rw [ofBitVec, BitVec.toNat_ofNat, Nat.mod_eq_of_lt fits, v.type_value_pattern]

theorem integer_ofBitVec (signed : t.isSigned) (patterns : t.patterns = 2 ^ n)
    (bits : 8 * t.width = n) (b : BitVec n) : (t.ofBitVec b).integer = b.toInt := by
  have type : (t.ofBitVec b).type = t := rfl
  rw [Value.integer, pattern_ofBitVec patterns, type, signed, Bool.true_and, patterns, bits,
    BitVec.toInt_eq_msb_cond, BitVec.msb_eq_getLsbD_last, BitVec.testBit_toNat]

end ScalarType

namespace Character
variable {c : Character}

theorem ofNat_int (i : Int32) : .ofNat (int i).pattern = i := by
  rw [int, ScalarType.pattern_ofBitVec rfl]
  exact Int32.toBitVec_inj.mp (BitVec.ofNat_toNat 32 _)

theorem int_ofNat {v : Value} (type : v.type = .int) : int (.ofNat v.pattern) = v :=
  ScalarType.ofBitVec_pattern rfl type

theorem int_injective : Function.Injective int :=
  Function.LeftInverse.injective (g := fun v : Value => Int32.ofNat v.pattern) ofNat_int

theorem ofNat_typeValue (t : CharacterType) : ⟨.ofNat (typeValue t).pattern⟩ = t := by
  rw [typeValue, ScalarType.pattern_ofBitVec rfl]
  exact congrArg CharacterType.mk (Int8.toBitVec_inj.mp (BitVec.ofNat_toNat 8 _))

theorem typeValue_ofNat {v : Value} (type : v.type = .byte) : typeValue ⟨.ofNat v.pattern⟩ = v :=
  ScalarType.ofBitVec_pattern rfl type

theorem typeValue_injective : Function.Injective typeValue :=
  Function.LeftInverse.injective (g := fun v : Value => (⟨.ofNat v.pattern⟩ : CharacterType)) ofNat_typeValue

theorem toJson_int (i : Int32) : (int i).toJson = .integer i.toInt :=
  congrArg Json.integer (ScalarType.integer_ofBitVec rfl rfl rfl _)

theorem toJson_typeValue (t : CharacterType) : (typeValue t).toJson = .integer t.code.toInt :=
  congrArg Json.integer (ScalarType.integer_ofBitVec rfl rfl rfl _)

/-- A member that is `null` unless there is something to be shown. -/
private theorem draftMembers?_optional {α : Type} (i : Nat) {f : FieldDef} {name : String}
    {rest : List (String × Json)} {others : List (Nat × Draft)} (o : Option α) (shown : α → Json)
    (draft : α → Draft) (field : schema.field? 0 i = some f) (named : f.name = name)
    (live : f.deprecated = false) (present : ∀ a, (shown a).isNull = false)
    (here : ∀ a, schema.draft? f (shown a) = some (draft a))
    (tail : schema.draftMembers? 0 rest = some others) :
    schema.draftMembers? 0 ((name, (o.map shown).getD .null) :: rest) =
      some ((o.map fun a => (i, draft a)).toList ++ others) := by
  refine Schema.draftMembers?_cons_eq_some_iff.mpr
    ⟨i, f, named ▸ Schema.fieldNamed?_name schema_valid field, ?_⟩
  cases o with
  | none => exact .inl ⟨rfl, tail⟩
  | some a => exact .inr ⟨present a, live, draft a, others, here a, tail, rfl⟩

private theorem draft?_of_scalar {f : FieldDef} {v : Value} (scalar : schema.scalarType? f.type = some v.type)
    (number : v.type.format? = none) : schema.draft? f v.toJson = some (.scalar v) := by
  have read := Schema.scalarOfJson?_toJson scalar (Value.isFinite_of_format? number)
  obtain ⟨name, type⟩ := f
  cases type with
  | scalar t | enum id => exact congrArg (Option.map Draft.scalar) read
  | string | vector | table | struct => cases scalar

private theorem elements_of_bytes (f : FieldDef) (bytes : List UInt8) :
    schema.elementsOfJson f (.scalar .ubyte) .ubyte (bytes.map fun b => .integer b.toNat) =
      .ok (bytesOf bytes) := by
  refine (Schema.elementsOfJson_eq_ok_iff rfl).mpr ?_
  rw [bytesOf, List.forall₂_map_left_iff, List.forall₂_map_right_iff, List.forall₂_same]
  intro byte _
  have pattern : (ScalarType.ubyte.value byte.toNat).pattern = byte.toNat :=
    ScalarType.normalize_of_lt (t := .ubyte) byte.toNat_lt
  have shown : Json.integer byte.toNat = (ScalarType.ubyte.value byte.toNat).toJson :=
    congrArg (fun n : Nat => Json.integer n) pattern.symm
  rw [shown]
  exact Schema.scalarOfJson?_toJson rfl rfl

/-- The JSON of a character is read as its draft. -/
theorem draftMembers?_toJson (c : Character) :
    ∃ members, c.toJson = .object members ∧ schema.draftMembers? 0 members = some c.fields := by
  refine ⟨_, rfl, ?_⟩
  refine draftMembers?_optional manaField (some c.mana) (fun i => .integer i.toInt) (fun i => .scalar (int i))
    (by rfl) (by rfl) (by rfl) (fun _ => rfl) (fun i => ?_) ?_
  · exact toJson_int i ▸ draft?_of_scalar rfl rfl
  refine draftMembers?_optional hpField (some c.hp) (fun i => .integer i.toInt) (fun i => .scalar (int i))
    (by rfl) (by rfl) (by rfl) (fun _ => rfl) (fun i => ?_) ?_
  · exact toJson_int i ▸ draft?_of_scalar rfl rfl
  refine draftMembers?_optional nameField c.name Json.string Draft.string
    (by rfl) (by rfl) (by rfl) (fun _ => rfl) (fun _ => rfl) ?_
  refine draftMembers?_optional inventoryField c.inventory (fun bytes => .array (bytes.map fun b => .integer b.toNat))
    (fun bytes => .scalars .ubyte (bytesOf bytes)) (by rfl) (by rfl) (by rfl) (fun _ => rfl)
    (fun bytes => ?_) ?_
  · exact congrArg (fun read => (Except.toOption read).map (Draft.scalars .ubyte)) (elements_of_bytes _ bytes)
  refine draftMembers?_optional typeField (some c.type) (fun t => .integer t.code.toInt)
    (fun t => .scalar (typeValue t)) (by rfl) (by rfl) (by rfl) (fun _ => rfl) (fun t => ?_) rfl
  exact toJson_typeValue t ▸ draft?_of_scalar rfl rfl

/-- What comes of encoding a character: by itself, or from its JSON with the members in any order. -/
inductive EncodedAs (c : Character) : Except BuildError Buffer → Prop where
  | packed : EncodedAs c c.toBuffer
  | imported {listed members : List (String × Json)} (shown : c.toJson = .object listed)
      (order : listed.Perm members) : EncodedAs c (schema.bufferOfJson (.object members))

/-- In both ways a table is built whose fields are set to those of the character. -/
theorem EncodedAs.exists_draft {result : Except BuildError Buffer} (encoded : c.EncodedAs result) :
    ∃ settings : List (Nat × Draft), settings.Perm c.fields ∧
      result = (TableDraft.mk 0 settings).buffer schema := by
  cases encoded with
  | packed => exact ⟨c.fields, .refl _, c.toBuffer_eq⟩
  | @imported listed members shown order =>
    obtain ⟨listed', shown', read⟩ := draftMembers?_toJson c
    obtain rfl : listed = listed' := Json.object.inj (shown.symm.trans shown')
    obtain ⟨settings, read', same⟩ := Schema.exists_draftMembers?_of_perm order read
    have table : schema.draftTable? 0 (.object members) = some (.mk 0 settings) := by
      rw [Schema.draftTable?, read']
      rfl
    exact ⟨settings, same.symm, Schema.bufferOfJson_eq rfl table⟩

end Character
end FlatTable

import FlatTable.Character.Message
import FlatTable.Proofs.Convert.Buffers

/-! Characters as drafts of their table. Packing a character is building its draft. -/
namespace FlatTable
open Layout Build Builder

namespace Character
variable {c : Character}

theorem schema_validate : schema.validate = .ok () := rfl

theorem schema_valid : schema.Valid := Schema.valid_of_validate schema_validate

def bytesOf (bytes : List UInt8) : List Value := bytes.map fun b => ScalarType.ubyte.value b.toNat

def fields (c : Character) : List (Nat × Draft) :=
  (manaField, .scalar (int c.mana)) :: (hpField, .scalar (int c.hp)) ::
    ((c.name.map fun text => (nameField, Draft.string text)).toList ++
      ((c.inventory.map fun bytes => (inventoryField, Draft.scalars .ubyte (bytesOf bytes))).toList ++
        [(typeField, .scalar (typeValue c.type))]))

def draft (c : Character) : TableDraft := .mk 0 c.fields

private theorem setScalar_eq {a : TableArgs} (isOpen : a.Open schema 0) {i : Nat} {f : FieldDef} {v : Value}
    (field : schema.field? 0 i = some f) (live : f.deprecated = false)
    (type : schema.scalarType? f.type = some v.type) :
    a.setScalar i v = .ok (a.set i (.scalar v)) :=
  TableArgs.setScalar_eq (by rw [isOpen.schema, isOpen.table, field]) live
    (by rw [isOpen.schema, type])

private theorem setReference_eq {a : TableArgs} (isOpen : a.Open schema 0) {i : Nat} {f : FieldDef}
    {p : Placed} (field : schema.field? 0 i = some f) (live : f.deprecated = false)
    (accepted : schema.accepts f.type p.kind) :
    a.setReference i p = .ok (a.set i (.reference p)) :=
  TableArgs.setReference_eq (by rw [isOpen.schema, isOpen.table, field]) live
    (by rw [isOpen.schema, accepted])

private def setTo {kind : ObjectKind} (a : TableArgs) (i : Nat) (r : Option (Ref kind)) : TableArgs :=
  (r.map fun r => a.set i (.reference r.placed)).getD a

private theorem setTo_open {kind : ObjectKind} {a : TableArgs} (isOpen : a.Open schema 0) (i : Nat)
    (r : Option (Ref kind)) : (setTo a i r).Open schema 0 := by
  cases r with
  | none => exact isOpen
  | some r => exact isOpen.set i _

private theorem setOptional_eq {kind : ObjectKind} {a : TableArgs} (isOpen : a.Open schema 0) {i : Nat}
    {f : FieldDef} (field : schema.field? 0 i = some f) (live : f.deprecated = false)
    (accepted : schema.accepts f.type kind) (r : Option (Ref kind)) :
    setOptional a i r = .ok (setTo a i r) := by
  cases r with
  | none => rfl
  | some r => exact setReference_eq isOpen field live accepted

private def settings (args : Args) : TableArgs :=
  let scalars := ((TableArgs.blank schema 0).set manaField (.scalar (int args.mana))).set hpField
    (.scalar (int args.hp))
  (setTo (setTo scalars nameField args.name) inventoryField args.inventory).set typeField
    (.scalar (typeValue args.type))

private theorem create_eq (args : Args) : create args = createTable (settings args) := by
  have blank := TableArgs.blank_open schema 0
  have scalars := (blank.set manaField (.scalar (int args.mana))).set hpField (.scalar (int args.hp))
  have named := setTo_open scalars nameField args.name
  have stocked := setTo_open named inventoryField args.inventory
  unfold create
  rw [TableArgs.new_eq_blank rfl, liftM_ok, pure_bind,
    setScalar_eq blank rfl rfl rfl, liftM_ok, pure_bind,
    setScalar_eq (blank.set _ _) rfl rfl rfl, liftM_ok, pure_bind,
    setOptional_eq scalars rfl rfl rfl, liftM_ok, pure_bind,
    setOptional_eq named rfl rfl rfl, liftM_ok, pure_bind,
    setScalar_eq stocked rfl rfl rfl, liftM_ok, pure_bind]
  rfl

/-- Packing a character is building its draft. -/
theorem pack_eq (c : Character) : pack c = c.draft.build schema := by
  obtain ⟨mana, hp, name, inventory, type⟩ := c
  unfold pack
  simp only [create_eq, draft, fields, TableDraft.build, Draft.setEach, Draft.setting, pure_bind]
  cases name <;> cases inventory <;>
    simp [settings, setTo, Draft.setEach, Draft.setting, bytesOf]

theorem toBuffer_eq (c : Character) : c.toBuffer = c.draft.buffer schema := by
  rw [toBuffer, TableDraft.buffer, pack_eq]

theorem mem_fields {e : Nat × Draft} : e ∈ c.fields ↔
    e = (manaField, .scalar (int c.mana)) ∨ e = (hpField, .scalar (int c.hp)) ∨
      (∃ text, c.name = some text ∧ e = (nameField, .string text)) ∨
        (∃ bytes, c.inventory = some bytes ∧ e = (inventoryField, .scalars .ubyte (bytesOf bytes))) ∨
          e = (typeField, .scalar (typeValue c.type)) := by
  simp [fields, eq_comm]

theorem type_of_mem_bytesOf {bytes : List UInt8} {v : Value} (member : v ∈ bytesOf bytes) :
    v.type = .ubyte := by
  obtain ⟨_, _, rfl⟩ := List.mem_map.mp member
  rfl

private theorem fields_distinct (c : Character) : (c.fields.map Prod.fst).Nodup := by
  obtain ⟨mana, hp, name, inventory, type⟩ := c
  cases name <;> cases inventory <;>
    simp [fields, manaField, hpField, nameField, inventoryField, typeField]

/-- The fields of a character can be set in any order. -/
theorem settable_of_perm {settings : List (Nat × Draft)} (order : settings.Perm c.fields) :
    (TableDraft.mk 0 settings).Settable schema := by
  refine .mk rfl ((order.map _).nodup_iff.mpr c.fields_distinct) (fun e member => ?_) fun e member => ?_
  · rcases mem_fields.mp (order.mem_iff.mp member) with
      rfl | rfl | ⟨text, _, rfl⟩ | ⟨bytes, _, rfl⟩ | rfl
    · exact ⟨_, rfl, rfl, rfl⟩
    · exact ⟨_, rfl, rfl, rfl⟩
    · exact ⟨_, rfl, rfl, rfl⟩
    · exact ⟨_, rfl, rfl, .scalar .ubyte, rfl, rfl⟩
    · exact ⟨_, rfl, rfl, rfl⟩
  · rcases mem_fields.mp (order.mem_iff.mp member) with
      rfl | rfl | ⟨text, _, rfl⟩ | ⟨bytes, _, rfl⟩ | rfl
    · exact .scalar
    · exact .scalar
    · exact .string
    · exact .scalars fun v inBytes => type_of_mem_bytesOf inBytes
    · exact .scalar

theorem draft_settable (c : Character) : c.draft.Settable schema := settable_of_perm (.refl _)

end Character
end FlatTable

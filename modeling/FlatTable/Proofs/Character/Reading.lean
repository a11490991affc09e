import FlatTable.Proofs.Character.Encoded
import FlatTable.Proofs.Mutate.Getters

/-! What a typed view of a table gives, by what the schema's reading finds there. -/
namespace FlatTable
open Layout

namespace Character
variable {c : Character}

inductive Has (c : Character) : Cell → Value → Prop where
  | mana : Has c (.field manaField) (int c.mana)
  | hp : Has c (.field hpField) (int c.hp)
  | type : Has c (.field typeField) (typeValue c.type)
  | inventory {bytes : List UInt8} {i : Nat} {byte : UInt8} (present : c.inventory = some bytes)
      (inside : bytes[i]? = some byte) :
      Has c (.element inventoryField i) (ScalarType.ubyte.value byte.toNat)

inductive Stocks : Option (List UInt8) → FieldValue → Prop where
  | absent : Stocks none .absent
  | vector {bytes : List UInt8} {v : FieldVector} (length : v.length = bytes.length) :
      Stocks (some bytes) (.vector v)

theorem Stocks.eq_none {inventory : Option (List UInt8)} (stocks : Stocks inventory .absent) :
    inventory = none := by
  cases stocks
  rfl

theorem Stocks.exists_bytes {inventory : Option (List UInt8)} {v : FieldVector}
    (stocks : Stocks inventory (.vector v)) :
    ∃ bytes, inventory = some bytes ∧ v.length = bytes.length := by
  cases stocks with
  | vector length => exact ⟨_, rfl, length⟩

structure Shows (c : Character) (t : TableView) : Prop where
  cells : ∀ cell value, c.Has cell value → t.cell? schema 0 cell = some value
  name : t.field schema 0 nameField = (c.name.map .string).getD .absent
  inventory : Stocks c.inventory (t.field schema 0 inventoryField)

namespace Shows
variable {t : TableView} (shows : c.Shows t)
include shows

private theorem scalar_eq (i : Nat) (default : Value) {f : FieldDef} {value : Value}
    (field : schema.field? 0 i = some f) (live : f.deprecated = false)
    (scalar : schema.scalarType? f.type = some default.type)
    (declared : schema.fieldDefault? 0 i = some default) (has : c.Has (.field i) value) :
    t.scalar (slotOf i) default = value := by
  have read := TableView.cell?_eq_scalar (t := t) field live scalar declared
  exact Option.some.inj (read.symm.trans (shows.cells _ _ has))

private theorem name_eq : CharacterView.name ⟨t⟩ = c.name := by
  have read : t.field schema 0 nameField = _ := TableView.field_eq_string rfl rfl rfl
  rw [shows.name] at read
  change t.string? (slotOf nameField) = c.name
  cases found : t.string? (slotOf nameField) <;> cases given : c.name <;> simp_all

private theorem inventory_eq : CharacterView.inventory ⟨t⟩ = c.inventory := by
  have read : t.field schema 0 inventoryField = _ := TableView.field_eq_vector rfl rfl rfl
  have stocks := shows.inventory
  change (t.vector? (slotOf inventoryField) (.scalar .ubyte)).map _ = _
  cases found : t.vector? (slotOf inventoryField) (.scalar .ubyte) with
  | none =>
    rw [read, found] at stocks
    exact stocks.eq_none.symm
  | some v =>
    rw [found] at read
    rw [read] at stocks
    obtain ⟨bytes, present, length⟩ := stocks.exists_bytes
    change v.length = bytes.length at length
    rw [present, Option.map_some, length]
    refine congrArg some (Buffer.toList_extract_of_value? fun j byte inside => ?_)
    have within : j < v.length := length ▸ (List.getElem?_eq_some_iff.mp inside).1
    exact (TableView.cell?_of_vector read within).symm.trans
      (shows.cells _ _ (.inventory present inside))

/-- The typed view gives the character. -/
theorem unpack_eq : CharacterView.unpack ⟨t⟩ = c := by
  have mana : CharacterView.mana ⟨t⟩ = c.mana := by
    have value := shows.scalar_eq manaField (int standard.mana) rfl rfl rfl rfl .mana
    exact (congrArg (fun v : Value => Int32.ofNat v.pattern) value).trans (ofNat_int _)
  have hp : CharacterView.hp ⟨t⟩ = c.hp := by
    have value := shows.scalar_eq hpField (int standard.hp) rfl rfl rfl rfl .hp
    exact (congrArg (fun v : Value => Int32.ofNat v.pattern) value).trans (ofNat_int _)
  have type : CharacterView.type ⟨t⟩ = c.type := by
    have value := shows.scalar_eq typeField (typeValue .useDefault) rfl rfl rfl rfl .type
    exact (congrArg (fun v : Value => (⟨.ofNat v.pattern⟩ : CharacterType)) value).trans (ofNat_typeValue _)
  rw [CharacterView.unpack, mana, hp, type, shows.name_eq, shows.inventory_eq]

end Shows
end Character
end FlatTable

import FlatTable.Proofs.Builder.Isolated
import FlatTable.Proofs.Character.Reading

/-! What the buffer of a character holds, in whichever way it is encoded. -/
namespace FlatTable
open Layout Build Builder

namespace Character
variable {c : Character} {b : Buffer} {position : Nat}

/-- A buffer whose root holds the character, without the scalars that are the default. -/
structure StoredIn (c : Character) (b : Buffer) (position : Nat) : Prop where
  accepted : (Verifier.standard schema).verify b = .ok ⟨position, 0⟩
  isolated : (Verifier.standard schema).Isolated b ⟨position, 0⟩
  shows : c.Shows ⟨b, position⟩
  scalars : ∀ i v, (i, .scalar v) ∈ c.fields →
    ((∃ holder, b.fieldPosition? position i = some holder) ↔ schema.fieldDefault? 0 i ≠ some v)

/-- A character leads to no other tables. -/
private theorem nested_eq_nil (b : Buffer) (position : Nat) : b.nested schema position 0 = [] := by
  rw [List.eq_nil_iff_forall_not_mem]
  intro n member
  obtain ⟨i, f, holder, field, _, nested⟩ := Buffer.mem_nested.mp member
  rcases i with _ | _ | _ | _ | _ | i <;> cases field <;> cases nested

private theorem tally_eq_one (t : Tally) (b : Buffer) (position : Nat) :
    b.tally t schema position 0 = 1 := by
  rw [Buffer.tally_eq, nested_eq_nil]
  rfl

theorem omitted_iff {i : Nat} {v : Value} (exact : v.type.format? = none) :
    (Draft.scalar v).omitted schema 0 i ↔ schema.fieldDefault? 0 i = some v := by
  rw [Draft.omitted, isDefault]
  cases schema.fieldDefault? 0 i with
  | none => simp
  | some d =>
    rw [Option.some.injEq]
    exact ⟨fun same => Value.eq_of_numEq same exact,
      fun same => same ▸ Value.numEq_self (Value.isFinite_of_format? (same ▸ exact))⟩

private theorem exact_of_mem {i : Nat} {v : Value} (member : (i, .scalar v) ∈ c.fields) :
    v.type.format? = none := by
  rcases mem_fields.mp member with same | same | ⟨_, _, same⟩ | ⟨_, _, same⟩ | same <;> cases same <;> rfl

private theorem name_mem_fields {d : Draft} :
    (nameField, d) ∈ c.fields ↔ ∃ text, c.name = some text ∧ d = .string text := by
  simp [mem_fields, nameField, manaField, hpField, inventoryField, typeField]

private theorem inventory_mem_fields {d : Draft} : (inventoryField, d) ∈ c.fields ↔
    ∃ bytes, c.inventory = some bytes ∧ d = .scalars .ubyte (bytesOf bytes) := by
  simp [mem_fields, nameField, manaField, hpField, inventoryField, typeField]

section
variable {h : History} {b : Builder} {rev i : Nat} {settings : List (Nat × Draft)} {f : FieldDef}
  (built : b.Built schema h) (complete : b.Complete h) (order : settings.Perm c.fields)
  (made : ((TableDraft.mk 0 settings).stored schema false).Made h rev)
include built order made

/-- A field that is not stored reads as its default. -/
private theorem field_of_absent (field : schema.field? 0 i = some f) (live : f.deprecated = false)
    (absent : ∀ d, (i, d) ∈ c.fields → d.omitted schema 0 i) :
    b.finished.data.fieldPosition? (b.positionOf rev) i = none ∧
      TableView.field ⟨b.finished.data, b.positionOf rev⟩ schema 0 i =
        ((schema.fieldDefault? 0 i).map .scalar).getD .absent := by
  have missing := built.fieldPosition?_of_not_kept (i := i) made fun d asked =>
    absent d (order.mem_iff.mp asked)
  exact ⟨missing, TableView.field_of_missing (t := ⟨_, _⟩) schema_valid field live missing⟩

include complete

/-- A scalar is stored unless it is the default, and is read either way. -/
private theorem scalar_of_made {v : Value} (member : (i, .scalar v) ∈ c.fields) :
    ((∃ holder, b.finished.data.fieldPosition? (b.positionOf rev) i = some holder) ↔
        schema.fieldDefault? 0 i ≠ some v) ∧
      TableView.cell? ⟨b.finished.data, b.positionOf rev⟩ schema 0 (.field i) = some v := by
  obtain ⟨_, distinct, typed, _⟩ := c.draft_settable
  obtain ⟨f, field, live, scalar⟩ := typed _ member
  have omitted := omitted_iff (i := i) (exact_of_mem member)
  by_cases isDefault : schema.fieldDefault? 0 i = some v
  · obtain ⟨missing, read⟩ := field_of_absent built order made field live fun d asked => by
      have same := List.inj_on_of_nodup_map distinct member asked rfl
      rw [← (Prod.mk.inj same).2]
      exact omitted.mpr isDefault
    refine ⟨by simp [missing, isDefault], ?_⟩
    rw [TableView.cell?, read, isDefault]
    rfl
  · have kept : (Draft.scalar v).omitted schema 0 i = false :=
      Bool.eq_false_iff.mpr (isDefault ∘ omitted.mp)
    obtain ⟨place, reads⟩ := complete.readAs_of_kept made schema_valid built (order.mem_iff.mpr member)
      kept field live scalar
    refine ⟨iff_of_true place isDefault, ?_⟩
    rw [Draft.stored] at reads
    generalize read : TableView.field _ schema 0 i = value at reads
    cases reads
    rw [TableView.cell?, read]
    rfl

/-- A name reads as it was asked for. -/
private theorem name_of_made : TableView.field ⟨b.finished.data, b.positionOf rev⟩ schema 0 nameField =
    (c.name.map .string).getD .absent := by
  cases given : c.name with
  | none =>
    refine (field_of_absent built order made rfl rfl fun d asked => ?_).2
    obtain ⟨_, present, _⟩ := name_mem_fields.mp asked
    cases given.symm.trans present
  | some text =>
    have asked := order.mem_iff.mpr (name_mem_fields.mpr ⟨text, given, rfl⟩)
    obtain ⟨_, reads⟩ := complete.readAs_of_kept made schema_valid built asked rfl rfl rfl rfl
    rw [Draft.stored] at reads
    generalize TableView.field _ schema 0 nameField = value at reads ⊢
    cases reads
    rfl

/-- An inventory reads as it was asked for, byte by byte. -/
private theorem inventory_of_made :
    Stocks c.inventory (TableView.field ⟨b.finished.data, b.positionOf rev⟩ schema 0 inventoryField) ∧
      ∀ bytes j byte, c.inventory = some bytes → bytes[j]? = some byte →
        TableView.cell? ⟨b.finished.data, b.positionOf rev⟩ schema 0 (.element inventoryField j) =
          some (ScalarType.ubyte.value byte.toNat) := by
  cases given : c.inventory with
  | none =>
    have read := (field_of_absent built order made (i := inventoryField) rfl rfl fun d asked => by
      obtain ⟨_, present, _⟩ := inventory_mem_fields.mp asked
      cases given.symm.trans present).2
    rw [read]
    exact ⟨.absent, nofun⟩
  | some bytes =>
    have asked := order.mem_iff.mpr (inventory_mem_fields.mpr ⟨bytes, given, rfl⟩)
    obtain ⟨_, reads⟩ :=
      complete.readAs_of_kept made schema_valid built asked rfl rfl rfl ⟨_, rfl, rfl⟩
    rw [Draft.stored] at reads
    generalize read : TableView.field _ schema 0 inventoryField = value at reads ⊢
    cases reads with
    | @scalars _ _ v length elements =>
      have whole : v.items.length = v.length := by rw [elements, List.length_map, length]
      refine ⟨.vector (by rw [length, bytesOf, List.length_map]), fun bytes' j byte same inside => ?_⟩
      obtain rfl := Option.some.inj same
      rw [TableView.cell?, read]
      dsimp only
      rw [FieldVector.get?_eq_getElem?_items whole, elements, bytesOf, List.map_map,
        List.getElem?_map, inside]
      rfl

private theorem shows_of_made : c.Shows ⟨b.finished.data, b.positionOf rev⟩ := by
  have scalar {i : Nat} {v : Value} (member : (i, .scalar v) ∈ c.fields) :=
    (scalar_of_made built complete order made member).2
  obtain ⟨stocks, bytes⟩ := inventory_of_made built complete order made
  refine ⟨fun cell value has => ?_, name_of_made built complete order made, stocks⟩
  cases has with
  | mana => exact scalar (mem_fields.mpr (.inl rfl))
  | hp => exact scalar (mem_fields.mpr (.inr (.inl rfl)))
  | type => exact scalar (mem_fields.mpr (.inr (.inr (.inr (.inr rfl)))))
  | inventory present inside => exact bytes _ _ _ present inside

end

/-- However a character is encoded, its buffer holds it, unless there is no room. -/
theorem EncodedAs.storedIn_or_limit {result : Except BuildError Buffer} (encoded : c.EncodedAs result) :
    (∃ e, result = .error e ∧ e.IsLimit) ∨ ∃ b position, result = .ok b ∧ c.StoredIn b position := by
  obtain ⟨settings, order, rfl⟩ := encoded.exists_draft
  rcases TableDraft.finish_cases schema_valid _ (settable_of_perm order) with
    failed | ⟨x, r, f, b', built, firm, made, finished⟩
  · exact .inl failed
  obtain ⟨top, room, spread⟩ := firm.finish_spread finished
  obtain ⟨rfl, built', complete, rooted⟩ := firm.finish finished
  obtain ⟨a, object, table⟩ := made.known
  have table : a.table = 0 := table
  have isRoot : x.history.tableAt? r.rev = some 0 := built'.grounded.tableAt?_eq_some_iff.mpr ⟨a, object, table⟩
  have tally (t : Tally) : x.history.tally t r.rev = 1 := by
    rw [← built'.tally_eq t firm.typed object, table, tally_eq_one]
  have header : (Verifier.standard schema).Header b'.finished.data := rooted.header (.inl rfl) built'.size_le
  have isolated := built'.isolated (v := .standard schema) firm.typed spread room object
  rw [table] at isolated
  refine .inr ⟨_, b'.positionOf r.rev, built, ?_, isolated, shows_of_made built' complete order made,
    fun i v member => (scalar_of_made built' complete order made member).1⟩
  exact built'.verify rooted firm.typed isRoot header rfl
    (Nat.le_trans (Nat.le_of_eq (tally .max)) (by decide))
    (Nat.le_trans (Nat.le_of_eq (tally .sum)) (by decide))

end Character
end FlatTable

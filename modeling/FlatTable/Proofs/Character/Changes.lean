import FlatTable.Proofs.Character.Space
import FlatTable.Proofs.Mutate.Granted

/-! Changing the buffer of a character: what it stores can be changed and nothing else, and the typed view
then gives the character with these changes. -/
namespace FlatTable
open Layout Build Builder

namespace CharacterChange
open Character

def cell : CharacterChange → Cell
  | mana _ => .field manaField
  | hp _ => .field hpField
  | type _ => .field typeField
  | inventory i _ => .element inventoryField i
  | field id _ => .field id

def value : CharacterChange → Value
  | mana i | hp i => int i
  | type t => typeValue t
  | inventory _ byte => ScalarType.ubyte.value byte.toNat
  | field _ v => v

def edit : CharacterChange → Change
  | mana i => .field 0 manaField (int i)
  | hp i => .field 0 hpField (int i)
  | type t => .field 0 typeField (typeValue t)
  | inventory i byte => .element 0 inventoryField i (ScalarType.ubyte.value byte.toNat)
  | field id v => .field 0 id v

end CharacterChange

def Session.perform (s : Session) (change : CharacterChange) : Session := s.update (change.changed? s)

namespace Character

/-- Is what the change is for among what is stored of this character? Scalars with their defaults are not. A
number of a field must be that of a scalar, and the value of its type. -/
def Stores (c : Character) : CharacterChange → Prop
  | .mana _ => c.mana ≠ standard.mana
  | .hp _ => c.hp ≠ standard.hp
  | .type _ => c.type ≠ standard.type
  | .inventory i _ => i < (c.inventory.getD []).length
  | .field id v => id = manaField ∧ v.type = .int ∧ c.mana ≠ standard.mana ∨
      id = hpField ∧ v.type = .int ∧ c.hp ≠ standard.hp ∨
        id = typeField ∧ v.type = .byte ∧ c.type ≠ standard.type

instance (c : Character) : DecidablePred c.Stores
  | .mana _ => inferInstanceAs (Decidable (c.mana ≠ standard.mana))
  | .hp _ => inferInstanceAs (Decidable (c.hp ≠ standard.hp))
  | .type _ => inferInstanceAs (Decidable (c.type ≠ standard.type))
  | .inventory i _ => inferInstanceAs (Decidable (i < (c.inventory.getD []).length))
  | .field id v => inferInstanceAs (Decidable (id = manaField ∧ v.type = .int ∧ c.mana ≠ standard.mana ∨
      id = hpField ∧ v.type = .int ∧ c.hp ≠ standard.hp ∨
        id = typeField ∧ v.type = .byte ∧ c.type ≠ standard.type))

def changed (c : Character) : CharacterChange → Character
  | .mana i => { c with mana := i }
  | .hp i => { c with hp := i }
  | .type t => { c with type := t }
  | .inventory i byte => { c with inventory := c.inventory.map (·.set i byte) }
  | .field id v =>
    if id = manaField then { c with mana := .ofNat v.pattern }
    else if id = hpField then { c with hp := .ofNat v.pattern }
    else { c with type := ⟨.ofNat v.pattern⟩ }

/-- The character after changes in this order, of which those are made that are stored of the first one. -/
def revised (c : Character) (changes : List CharacterChange) : Character :=
  changes.foldl (fun now change => if c.Stores change then now.changed change else now) c

structure Alike (c c' : Character) : Prop where
  name : c'.name = c.name
  length : c'.inventory.map List.length = c.inventory.map List.length

variable {c c' : Character} {change : CharacterChange}

theorem Alike.changed (alike : c.Alike c') (change : CharacterChange) : c.Alike (c'.changed change) := by
  cases change with
  | mana | hp | type => exact ⟨alike.name, alike.length⟩
  | inventory i byte =>
    refine ⟨alike.name, Eq.trans ?_ alike.length⟩
    rw [Character.changed, Option.map_map]
    exact congrArg (Option.map · c'.inventory) (funext fun bytes => List.length_set)
  | field id v =>
    rw [Character.changed]
    split
    · exact ⟨alike.name, alike.length⟩
    · split <;> exact ⟨alike.name, alike.length⟩

section
variable {cell : Cell} {value : Value}

private theorem Has.of_mana {i : Int32} (has : Has { c with mana := i } cell value) :
    cell = .field manaField ∧ value = int i ∨ cell ≠ .field manaField ∧ c.Has cell value := by
  cases has with
  | mana => exact .inl ⟨rfl, rfl⟩
  | hp => exact .inr ⟨nofun, .hp⟩
  | type => exact .inr ⟨nofun, .type⟩
  | inventory present inside => exact .inr ⟨nofun, .inventory present inside⟩

private theorem Has.of_hp {i : Int32} (has : Has { c with hp := i } cell value) :
    cell = .field hpField ∧ value = int i ∨ cell ≠ .field hpField ∧ c.Has cell value := by
  cases has with
  | hp => exact .inl ⟨rfl, rfl⟩
  | mana => exact .inr ⟨nofun, .mana⟩
  | type => exact .inr ⟨nofun, .type⟩
  | inventory present inside => exact .inr ⟨nofun, .inventory present inside⟩

private theorem Has.of_type {t : CharacterType} (has : Has { c with type := t } cell value) :
    cell = .field typeField ∧ value = typeValue t ∨ cell ≠ .field typeField ∧ c.Has cell value := by
  cases has with
  | type => exact .inl ⟨rfl, rfl⟩
  | mana => exact .inr ⟨nofun, .mana⟩
  | hp => exact .inr ⟨nofun, .hp⟩
  | inventory present inside => exact .inr ⟨nofun, .inventory present inside⟩

private theorem Has.of_inventory {i : Nat} {byte : UInt8}
    (has : Has { c with inventory := c.inventory.map (·.set i byte) } cell value) :
    cell = .element inventoryField i ∧ value = ScalarType.ubyte.value byte.toNat ∨
      cell ≠ .element inventoryField i ∧ c.Has cell value := by
  cases has with
  | mana => exact .inr ⟨nofun, .mana⟩
  | hp => exact .inr ⟨nofun, .hp⟩
  | type => exact .inr ⟨nofun, .type⟩
  | @inventory _ j byte' present inside =>
    obtain ⟨bytes, before, rfl⟩ := Option.map_eq_some_iff.mp present
    by_cases same : i = j
    · subst same
      have within : i < bytes.length := by simpa using (List.getElem?_eq_some_iff.mp inside).1
      rw [List.getElem?_set_self within] at inside
      obtain rfl := Option.some.inj inside
      exact .inl ⟨rfl, rfl⟩
    · rw [List.getElem?_set_ne same] at inside
      exact .inr ⟨fun here => same (Cell.element.inj here).2.symm, .inventory before inside⟩

/-- A scalar of the changed character is the one that the change is for, or one of before. -/
theorem Has.of_changed (stores : c.Stores change) (has : (c'.changed change).Has cell value) :
    cell = change.cell ∧ value = change.value ∨ cell ≠ change.cell ∧ c'.Has cell value := by
  cases change with
  | mana i => exact has.of_mana
  | hp i => exact has.of_hp
  | type t => exact has.of_type
  | inventory i byte => exact has.of_inventory
  | field id v =>
    rcases stores with ⟨rfl, type, _⟩ | ⟨rfl, type, _⟩ | ⟨rfl, type, _⟩
    · exact int_ofNat type ▸ Has.of_mana has
    · exact int_ofNat type ▸ Has.of_hp has
    · exact typeValue_ofNat type ▸ Has.of_type has

end

/-! ### What is stored -/

namespace StoredIn
variable {b : Buffer} {position : Nat} (stored : c.StoredIn b position)
include stored

private theorem field_iff {i : Nat} {f : FieldDef} {v default : Value} (member : (i, .scalar v) ∈ c.fields)
    (field : schema.field? 0 i = some f) (live : f.deprecated = false)
    (scalar : schema.scalarType? f.type = some default.type)
    (declared : schema.fieldDefault? 0 i = some default) :
    (∃ p, b.CellAt schema position 0 (.field i) p default.type) ↔ v ≠ default := by
  have place := stored.scalars i v member
  rw [declared, ne_eq, Option.some.injEq] at place
  refine Iff.trans ⟨?_, ?_⟩ (place.trans ne_comm)
  · rintro ⟨p, cell⟩
    cases cell with
    | field _ _ _ place => exact ⟨p, place⟩
  · rintro ⟨p, place⟩
    exact ⟨p, .field field live scalar place⟩

private theorem mana_iff : (∃ p, b.CellAt schema position 0 (.field manaField) p .int) ↔
    c.mana ≠ standard.mana :=
  (stored.field_iff (mem_fields.mpr (.inl rfl)) rfl rfl rfl rfl).trans int_injective.ne_iff

private theorem hp_iff : (∃ p, b.CellAt schema position 0 (.field hpField) p .int) ↔
    c.hp ≠ standard.hp :=
  (stored.field_iff (mem_fields.mpr (.inr (.inl rfl))) rfl rfl rfl rfl).trans int_injective.ne_iff

private theorem type_iff : (∃ p, b.CellAt schema position 0 (.field typeField) p .byte) ↔
    c.type ≠ standard.type := by
  have declared : schema.fieldDefault? 0 typeField = some (typeValue standard.type) := rfl
  exact (stored.field_iff (mem_fields.mpr (.inr (.inr (.inr (.inr rfl))))) rfl rfl rfl declared).trans
    typeValue_injective.ne_iff

private theorem inventory_iff {i : Nat} :
    (∃ p, b.CellAt schema position 0 (.element inventoryField i) p .ubyte) ↔
      i < (c.inventory.getD []).length := by
  have stocks := stored.shows.inventory
  constructor
  · rintro ⟨p, cell⟩
    cases cell with
    | element found live isVector scalar place leads counted inside =>
      have table := Verifier.tableAt_of_below stored.accepted .refl
      have read : TableView.field ⟨b, position⟩ schema 0 inventoryField = _ :=
        table.field_vector ⟨rfl, fun _ _ _ _ _ _ => rfl⟩ found live isVector place leads counted
      rw [read] at stocks
      obtain ⟨bytes, present, length⟩ := stocks.exists_bytes
      rw [present, Option.getD_some]
      exact length ▸ inside
  · intro inside
    obtain ⟨bytes, present⟩ : ∃ bytes, c.inventory = some bytes := by
      cases given : c.inventory with
      | none => simp [given] at inside
      | some bytes => exact ⟨bytes, rfl⟩
    rw [present] at stocks inside
    generalize read : TableView.field ⟨b, position⟩ schema 0 inventoryField = value at stocks
    cases stocks with
    | vector length =>
      obtain ⟨f, holder, target, element, found, isVector, place, leads, vector⟩ := TableView.exists_vector read
      cases found
      cases isVector
      obtain ⟨_, counted, _, rfl⟩ := FieldVector.at?_eq_some_iff.mp vector
      exact ⟨_, .element rfl rfl rfl rfl place leads counted (Nat.lt_of_lt_of_eq inside length.symm)⟩

/-- What can be changed is what is stored of the character. -/
theorem cellAt_iff :
    (∃ p, b.CellAt schema position 0 change.cell p change.value.type) ↔ c.Stores change := by
  cases change with
  | mana i => exact stored.mana_iff
  | hp i => exact stored.hp_iff
  | type t => exact stored.type_iff
  | inventory i byte => exact stored.inventory_iff
  | field id v =>
    constructor
    · rintro ⟨p, cell⟩
      cases cell with
      | field found live scalar place =>
        rcases id with _ | _ | _ | _ | _ | id <;> cases found
        · have type := (Option.some.inj scalar).symm
          exact .inl ⟨rfl, type, stored.mana_iff.mp ⟨p, .field rfl rfl rfl place⟩⟩
        · have type := (Option.some.inj scalar).symm
          exact .inr (.inl ⟨rfl, type, stored.hp_iff.mp ⟨p, .field rfl rfl rfl place⟩⟩)
        · cases scalar
        · cases scalar
        · have type := (Option.some.inj scalar).symm
          exact .inr (.inr ⟨rfl, type, stored.type_iff.mp ⟨p, .field rfl rfl rfl place⟩⟩)
    · rintro (⟨rfl, type, stores⟩ | ⟨rfl, type, stores⟩ | ⟨rfl, type, stores⟩)
      · exact type ▸ stored.mana_iff.mpr stores
      · exact type ▸ stored.hp_iff.mpr stores
      · exact type ▸ stored.type_iff.mpr stores

end StoredIn

/-! ### Runs -/

/-- A vector of the same length reads as an inventory of the same length. -/
private theorem Stocks.of_outline {value value' : FieldValue} (stocks : Stocks c.inventory value)
    (alike : c.Alike c') (outline : value'.outline = value.outline) : Stocks c'.inventory value' := by
  have length := alike.length
  generalize c.inventory = stock at stocks length
  cases stocks with
  | absent =>
    rw [Option.map_none, Option.map_eq_none_iff] at length
    rw [length, FieldValue.eq_absent_of_outline outline]
    exact .absent
  | @vector bytes v same =>
    obtain ⟨v', rfl, _, same', _⟩ := FieldValue.exists_vector_of_outline outline
    obtain ⟨bytes', present, counted⟩ := Option.map_eq_some_iff.mp length
    rw [present]
    exact .vector (by rw [same', same, counted])

/-- Where nothing but scalars has changed. -/
private theorem Shows.of_outline {t t' : TableView} (shows : c.Shows t) (alike : c.Alike c')
    (outline : ∀ i, (t'.field schema 0 i).outline = (t.field schema 0 i).outline)
    (cells : ∀ cell value, c'.Has cell value → t'.cell? schema 0 cell = some value) : c'.Shows t' := by
  refine ⟨cells, ?_, shows.inventory.of_outline alike (outline inventoryField)⟩
  have same := outline nameField
  rw [shows.name] at same
  rw [alike.name]
  cases given : c.name with
  | none =>
    rw [given] at same
    exact FieldValue.eq_absent_of_outline same
  | some text =>
    rw [given] at same
    exact FieldValue.eq_string_of_outline same

/-- A buffer of the character `c` that has been changed and now holds `now`. Its root table has been asked
for. -/
structure Holds (c now : Character) (b : Buffer) (position : Nat) (m : Editing) : Prop where
  sound : m.Sound (.standard schema)
  kept : m.Kept (.standard schema) b ⟨position, 0⟩
  root : m.table? 0 = some m.session.rootTable
  alike : c.Alike now
  shows : now.Shows ⟨m.session.buffer, position⟩

namespace Holds
variable {now : Character} {b : Buffer} {position : Nat} {m : Editing}

theorem rootTable_eq (holds : c.Holds now b position m) :
    m.session.rootTable = ⟨schema, m.session.buffer, position, 0⟩ := by
  rw [Session.rootTable, holds.kept.atRoot, holds.sound.alike.schema]
  rfl

/-- A change of the root table is the one that the typed view makes. -/
theorem result?_edit (holds : c.Holds now b position m) (change : CharacterChange) :
    m.result? change.edit = change.changed? m.session := by
  cases change with
  | mana i | hp i | type t | field id v =>
    rw [CharacterChange.edit, Editing.result?, holds.root]
    rfl
  | inventory i byte =>
    rw [CharacterChange.edit, Editing.result?, holds.root, Option.bind_some,
      MutableTable.setElement?_eq_vectorOf?, CharacterChange.changed?]
    refine Option.bind_congr fun v _ => ?_
    cases v.set? i (ScalarType.ubyte.value byte.toNat) <;> rfl

/-- A change is made exactly if what it is for is stored. -/
theorem isSome_iff (holds : c.Holds now b position m) (stored : c.StoredIn b position)
    (change : CharacterChange) : (change.changed? m.session).isSome ↔ c.Stores change := by
  have root := holds.root
  rw [holds.rootTable_eq] at root
  rw [← holds.result?_edit, ← stored.cellAt_iff]
  cases change with
  | mana i | hp i | type t | field id v => exact holds.kept.field_isSome_iff stored.accepted root
  | inventory i byte => exact holds.kept.element_isSome_iff stored.accepted root

/-- The scalar that a change is for. -/
theorem eq_of_addresses (holds : c.Holds now b position m) {change : CharacterChange} {p id : Nat} {cell : Cell}
    {value : Value} (addresses : m.Addresses change.edit p id cell value) :
    p = position ∧ id = 0 ∧ cell = change.cell ∧ value = change.value := by
  have root := holds.root
  rw [holds.rootTable_eq] at root
  cases change with
  | mana i | hp i | type t | field id v =>
    cases addresses with
    | field asked =>
      obtain rfl := Option.some.inj (root.symm.trans asked)
      exact ⟨rfl, rfl, rfl, rfl⟩
  | inventory i byte =>
    cases addresses with
    | element asked =>
      obtain rfl := Option.some.inj (root.symm.trans asked)
      exact ⟨rfl, rfl, rfl, rfl⟩

theorem step_edit (holds : c.Holds now b position m) (change : CharacterChange) :
    m.step change.edit = { m with session := m.session.perform change } := by
  have same : m.step change.edit = m.write (m.result? change.edit) := by cases change <;> rfl
  rw [same, holds.result?_edit]
  rfl

/-- The root table stays the one that was asked for. -/
private theorem root_perform (holds : c.Holds now b position m) (change : CharacterChange) :
    Editing.table? { m with session := m.session.perform change } 0 =
      some (m.session.perform change).rootTable := by
  obtain ⟨t, found, same⟩ := Option.map_eq_some_iff.mp holds.root
  rw [Editing.table?, found, Option.map_some]
  exact congrArg (fun t => some { t with buffer := (m.session.perform change).buffer }) same

/-- What a change sets reads as it was set, and all else as before. -/
private theorem shows_perform (holds : c.Holds now b position m) (stored : c.StoredIn b position)
    {change : CharacterChange} (stores : c.Stores change) :
    (now.changed change).Shows ⟨(m.session.perform change).buffer, position⟩ := by
  have given := (holds.isSome_iff stored change).mpr stores
  rw [← holds.result?_edit] at given
  have next := Editing.step_kept stored.accepted stored.isolated.apart holds.sound holds.kept change.edit
  obtain ⟨p, id, cell, value, addresses, reached, here, others⟩ :=
    holds.kept.setsOnly stored.accepted stored.isolated holds.sound given
  obtain ⟨rfl, rfl, rfl, rfl⟩ := holds.eq_of_addresses addresses
  rw [holds.step_edit] at next here others
  have outline (i : Nat) := (next.outline .refl i).trans (holds.kept.outline .refl i).symm
  refine holds.shows.of_outline (Alike.changed ⟨rfl, rfl⟩ change) outline fun cell value has => ?_
  rcases has.of_changed stores with ⟨rfl, rfl⟩ | ⟨other, before⟩
  · exact here
  · refine ((others _ 0 cell .root).2 fun same => ?_).trans (holds.shows.cells cell value before)
    rcases TableView.sameCell_iff.mp same with ⟨_, _, rfl⟩ | ⟨i, i', j, _, _, isElement, rfl, _⟩
    · exact other rfl
    · have first : i = inventoryField := by cases change <;> cases isElement; rfl
      cases before with
      | inventory => exact other (by rw [isElement, first])

/-- The next change of the root table. -/
theorem step (holds : c.Holds now b position m) (stored : c.StoredIn b position) (change : CharacterChange) :
    c.Holds (if c.Stores change then now.changed change else now) b position
      { m with session := m.session.perform change } := by
  have sound := Editing.step_sound holds.sound change.edit
  have kept := Editing.step_kept stored.accepted stored.isolated.apart holds.sound holds.kept change.edit
  rw [holds.step_edit] at sound kept
  refine ⟨sound, kept, holds.root_perform change, ?_, ?_⟩
  · split
    · exact holds.alike.changed change
    · exact holds.alike
  · split
    · rename_i stores
      exact holds.shows_perform stored stores
    · rename_i refused
      have none : change.changed? m.session = none := by
        rw [← Option.not_isSome_iff_eq_none, holds.isSome_iff stored]
        exact refused
      rw [Session.perform, none]
      exact holds.shows

/-- All changes, one after the other. -/
theorem foldl (holds : c.Holds now b position m) (stored : c.StoredIn b position)
    (changes : List CharacterChange) : c.Holds
      (changes.foldl (fun now change => if c.Stores change then now.changed change else now) now) b position
      { m with session := changes.foldl Session.perform m.session } := by
  induction changes generalizing now m with
  | nil => exact holds
  | cons change changes ih => exact ih (holds.step stored change)

/-- The typed view gives what the buffer now holds. -/
theorem ofSession_eq (holds : c.Holds now b position m) :
    CharacterView.ofSession m.session = ⟨⟨m.session.buffer, position⟩⟩ := by
  rw [CharacterView.ofSession, Session.rootView, holds.kept.atRoot]

/-- The bytes are accepted again. -/
theorem exists_reverify (holds : c.Holds now b position m) (stored : c.StoredIn b position) :
    ∃ s, m.session.reverify = .ok s ∧ CharacterView.ofSession s = CharacterView.ofSession m.session := by
  have again := holds.kept.verify stored.accepted
  exact ⟨_, (Editing.reverify_eq_ok_iff holds.sound).mpr ⟨_, again, rfl⟩, holds.ofSession_eq.symm⟩

end Holds

/-- A session starts with the character as it was encoded. -/
theorem StoredIn.start_holds {b : Buffer} {position : Nat} (stored : c.StoredIn b position) {s : Session}
    (started : Session.start (.standard schema) b = .ok s) :
    c.Holds c b position ⟨s, [s.rootTable], []⟩ := by
  have sound := Editing.start_sound started
  obtain ⟨root, accepted, rfl⟩ := Editing.start_eq_ok_iff.mp started
  obtain rfl : ⟨position, 0⟩ = root := Except.ok.inj (stored.accepted.symm.trans accepted)
  exact ⟨Editing.step_sound sound .root, Editing.step_kept accepted stored.isolated.apart sound
    (Editing.start_kept _ _ _ _) .root, rfl, ⟨rfl, rfl⟩, stored.shows⟩

/-- What comes of encoding a character. If what it takes is more than a buffer holds, it is refused for its size.
Else there is a buffer of that size, but for padding at its end. Its typed view gives the character, and in it what
is stored of the character can be changed, and nothing else. After any changes the bytes are accepted again, and
the typed view gives the character with those changes. -/
theorem revised_of_encoded {result : Except BuildError Buffer} (encoded : c.EncodedAs result) :
    (maxBufferSize < c.space →
      ∃ requested, result = .error (.bufferTooLarge requested) ∧ maxBufferSize < requested) ∧
    (c.space ≤ maxBufferSize → ∃ b, result = .ok b ∧ b.size ≤ c.space ∧ c.space < b.size + offsetSize ∧
      (∃ view, CharacterView.ofBuffer b = .ok view ∧ view.unpack = c) ∧
      ∃ s, Session.start (.standard schema) b = .ok s ∧ ∀ changes : List CharacterChange,
        let s' := changes.foldl Session.perform s
        (∀ change : CharacterChange, (change.changed? s').isSome ↔ c.Stores change) ∧
        (∃ s'', s'.reverify = .ok s'' ∧ CharacterView.ofSession s'' = CharacterView.ofSession s') ∧
        (CharacterView.ofSession s').unpack = c.revised changes ∧ c.Alike (c.revised changes)) := by
  rcases encoded.storedIn_or_exceeds with
    ⟨large, requested, refused, more, _⟩ | ⟨small, b, position, built, stored, least, most⟩
  · exact ⟨fun _ => ⟨requested, refused, more⟩, fun small => absurd small (Nat.not_le.mpr large)⟩
  refine ⟨fun large => absurd small (Nat.not_le.mpr large), fun _ => ?_⟩
  have started : Session.start (.standard schema) b =
      .ok ⟨.standard schema, b, ⟨position, 0⟩, Crc32.checksum b⟩ :=
    Editing.start_eq_ok_iff.mpr ⟨_, stored.accepted, rfl⟩
  refine ⟨b, built, least, most, ⟨⟨⟨b, position⟩⟩, ?_, stored.shows.unpack_eq⟩, _, started, fun changes => ?_⟩
  · rw [CharacterView.ofBuffer, stored.accepted]
    rfl
  · have holds := (stored.start_holds started).foldl stored changes
    refine ⟨holds.isSome_iff stored, holds.exists_reverify stored, ?_, holds.alike⟩
    rw [holds.ofSession_eq]
    exact holds.shows.unpack_eq

/-- A character with mana, a name and an inventory, whose hit points are the default. -/
def goblin : Character := ⟨300, 100, some "ab", some [7, 8], .player⟩

/-- The same in both ways of encoding, with the members of the JSON from the last to the first. -/
theorem goblin_revised : ∃ members, goblin.toJson = .object members ∧
    ∀ result ∈ [goblin.toBuffer, schema.bufferOfJson (.object members.reverse)],
      ∃ b s, result = .ok b ∧ Session.start (.standard schema) b = .ok s ∧
        let s' := [.mana 5, .hp 1, .inventory 1 9, .inventory 2 9].foldl Session.perform s
        ((CharacterChange.type .ai).changed? s').isSome ∧ ((CharacterChange.hp 1).changed? s').isSome = false ∧
          (CharacterView.ofSession s').unpack = ⟨5, 100, some "ab", some [7, 9], .player⟩ := by
  refine ⟨_, rfl, fun result member => ?_⟩
  have encoded : goblin.EncodedAs result := by
    rcases List.mem_cons.mp member with rfl | member
    · exact .packed
    · obtain rfl := List.mem_singleton.mp member
      exact .imported rfl (List.reverse_perm _).symm
  obtain ⟨b, built, _, _, _, s, started, revised⟩ := (revised_of_encoded encoded).2 (by decide)
  obtain ⟨refused, _, unpacked, _⟩ := revised [.mana 5, .hp 1, .inventory 1 9, .inventory 2 9]
  refine ⟨b, s, built, started, (refused _).mpr (by decide), ?_, unpacked⟩
  rw [Bool.eq_false_iff, ne_eq, refused]
  decide

example : goblin.space = 56 := by decide

end Character
end FlatTable

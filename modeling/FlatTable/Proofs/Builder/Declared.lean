import FlatTable.Proofs.Builder.ReadsBack

/-! Which table a reference may lead to. A builder asks only that what is put into a field is an
object of the right kind, and all tables are of one kind. So a finished buffer is read as it was
created exactly if each table below its root was put where that table is declared. -/
namespace FlatTable
open Layout Build

def FieldValue.LeadsTo (value : FieldValue) (t : TableView) (id : Nat) : Prop :=
  value = .table t id ∨ ∃ v j, value = .vector v ∧ v.get? j = some (.table t id)

theorem Schema.Reached.leadsTo {s : Schema} {root t t' : TableView} {rootId id id' i : Nat}
    (before : s.Reached root rootId t id) (leads : (t.field s id i).LeadsTo t' id') :
    s.Reached root rootId t' id' := by
  rcases leads with read | ⟨v, j, read, get⟩
  · exact before.field read
  · exact before.element read get

/-- The field that leads to a table is known and is not deprecated. -/
theorem FieldValue.LeadsTo.exists_field {s : Schema} {t t' : TableView} {id id' i : Nat}
    (leads : (t.field s id i).LeadsTo t' id') :
    ∃ f, s.field? id i = some f ∧ f.deprecated = false := by
  have absent : ¬ FieldValue.absent.LeadsTo t' id' := by
    rintro (read | ⟨_, _, read, _⟩) <;> cases read
  unfold TableView.field at leads
  split at leads
  · exact absurd leads absent
  · rename_i f found
    split at leads
    · exact absurd leads absent
    · rename_i live
      exact ⟨f, found, by simpa using live⟩

/-- A vector whose elements are all read leads to those of them that are tables. -/
theorem FieldVector.leadsTo_iff {v : FieldVector} {l : List FieldValue} {t : TableView} {id : Nat}
    (length : v.length = l.length) (elements : v.items = l) :
    (FieldValue.vector v).LeadsTo t id ↔ .table t id ∈ l := by
  have get (j : Nat) : v.get? j = l[j]? := by
    rw [get?_eq_getElem?_items (by rw [elements, length]), elements]
  constructor
  · rintro (read | ⟨_, j, ⟨⟩, found⟩)
    · cases read
    · exact List.mem_of_getElem? ((get j).symm.trans found)
  · intro member
    obtain ⟨j, found⟩ := List.mem_iff_getElem?.mp member
    exact .inr ⟨v, j, rfl, (get j).trans found⟩

/-- A field of this type can hold the setting, and what a reference leads to is an object that such
a field accepts. -/
def Setting.Holds (s : Schema) (h : History) (type : FieldType) : Setting → Prop
  | .reference p => ∃ c, h.content? p.rev = some c ∧ Builder.Fulfils s type c
  | .scalar v => (Setting.scalar v).Fits s type
  | .struct values => (Setting.struct values).Fits s type

namespace History
variable {h : History} {s : Schema} {root : Nat}

def putInto (h : History) (rev i : Nat) : List Nat :=
  match h.content? rev with
  | some (.table a) => h.tablesOf a.settings[i]?.join
  | _ => []

/-- The tables that references lead to from a table on. -/
inductive Leads (h : History) (root : Nat) : Nat → Prop
  | root : Leads h root root
  | step {rev i r : Nat} {a : TableArgs} (before : Leads h root rev) (known : ⟨rev, .table a⟩ ∈ h)
      (found : r ∈ h.tablesOf a.settings[i]?.join) : Leads h root r

/-- All tables below the root refer to others only as what they were created for. -/
def TypedBelow (s : Schema) (h : History) (root : Nat) : Prop :=
  ∀ rev a, h.Leads root rev → ⟨rev, .table a⟩ ∈ h → (Content.table a).Typed s h

theorem Typed.below (typed : h.Typed s) : h.TypedBelow s root := fun _ _ _ known => typed _ known

end History

namespace Builder
variable {s : Schema} {h : History} {b : Builder} {rev i : Nat} {a : TableArgs} {f : FieldDef}

/-- What was put into a field leads to tables only if the field declares some. -/
private theorem tables?_of_mem_tablesOf {p : Placed} {c : Content} {type : FieldType} {r : Nat}
    (object : h.content? p.rev = some c) (fulfils : Fulfils s type c)
    (found : r ∈ h.tablesOf (some (.reference p))) : ∃ id, type.tables? = some id := by
  rw [History.tablesOf, object] at found
  cases fulfils with
  | string | scalars | strings => cases found
  | tables | table => exact ⟨_, rfl⟩

/-- The tables that a field leads to are those that were put there, as what the field declares. -/
theorem ReadsBack.leadsTo_iff {type : FieldType} {value : FieldValue} {t : TableView} {id : Nat}
    (reads : b.ReadsBack h a i type value) :
    value.LeadsTo t id ↔ type.tables? = some id ∧
      ∃ r ∈ h.tablesOf a.settings[i]?.join, t = ⟨b.finished.data, b.positionOf r⟩ := by
  have none_of_unset (unset : ∀ x, a.settings[i]? ≠ some (some x)) :
      h.tablesOf a.settings[i]?.join = [] := by
    cases found : a.settings[i]? with
    | none => rfl
    | some x =>
      cases x with
      | none => rfl
      | some x => exact absurd found (unset x)
  have other (notTable : ∀ t id, value ≠ .table t id) (notVector : ∀ v, value ≠ .vector v)
      (nothing : h.tablesOf a.settings[i]?.join = []) :
      value.LeadsTo t id ↔ type.tables? = some id ∧
        ∃ r ∈ h.tablesOf a.settings[i]?.join, t = ⟨b.finished.data, b.positionOf r⟩ := by
    rw [nothing]
    constructor
    · rintro (read | ⟨v, _, read, _⟩)
      · exact absurd read (notTable t id)
      · exact absurd read (notVector v)
    · rintro ⟨_, _, member, _⟩
      cases member
  cases reads with
  | scalar set | equal set | struct set => exact other nofun nofun (by rw [set]; rfl)
  | default unset | absent unset => exact other nofun nofun (none_of_unset unset)
  | string set object =>
    refine other nofun nofun ?_
    rw [set]
    simp only [Option.join_some, History.tablesOf, object]
  | scalars set object length elements =>
    rw [FieldVector.leadsTo_iff (by rw [List.length_map, length]) elements, set]
    simp [History.tablesOf, object]
  | @strings p items v set object length refers elements =>
    have count : v.items.length = items.length := by simpa using congrArg List.length elements
    rw [FieldVector.leadsTo_iff (length.trans count.symm) rfl, set]
    simp only [Option.join_some, History.tablesOf, object, List.not_mem_nil, false_and,
      exists_false, and_false, iff_false]
    intro member
    have texts := List.mem_map_of_mem (f := some) member
    rw [elements] at texts
    obtain ⟨r, _, text⟩ := List.mem_map.mp texts
    cases read : h.text? r.rev <;> rw [read] at text <;> cases text
  | tables set object declared length elements =>
    rw [FieldVector.leadsTo_iff (by rw [List.length_map, length]) elements, set, declared]
    simp only [Option.join_some, History.tablesOf, object, FieldType.tables?, Option.some.injEq,
      List.mem_map, FieldValue.table.injEq]
    constructor
    · rintro ⟨r, member, same, called⟩
      exact ⟨called, _, ⟨r, member, rfl⟩, same.symm⟩
    · rintro ⟨called, _, ⟨r, member, rfl⟩, same⟩
      exact ⟨r, member, same.symm, called⟩
  | table set object declared =>
    rw [set, declared]
    simp only [Option.join_some, History.tablesOf, object, FieldType.tables?, Option.some.injEq,
      List.mem_singleton, exists_eq_left]
    constructor
    · rintro (⟨⟨⟩⟩ | ⟨_, _, read, _⟩)
      · exact ⟨rfl, rfl⟩
      · cases read
    · rintro ⟨rfl, rfl⟩
      exact .inl rfl

/-- Reading leads to tables only as what they were created for. -/
def ReadsDeclared (b : Builder) (s : Schema) (h : History) (root id : Nat) : Prop :=
  ∀ t id', s.Reached ⟨b.finished.data, b.positionOf root⟩ id t id' →
    ∃ rev, h.tableAt? rev = some id' ∧ t = ⟨b.finished.data, b.positionOf rev⟩

namespace Built
variable (built : b.Built s h)
include built

theorem holds {x : Setting} (known : ⟨rev, .table a⟩ ∈ h) (set : a.settings[i]? = some (some x)) :
    ∃ f, s.field? a.table i = some f ∧ f.deprecated = false ∧ x.Holds s h f.type := by
  obtain ⟨f, found, live, fits⟩ := (built.fits _ known a rfl).setting i x set
  refine ⟨f, found, live, ?_⟩
  cases x with
  | scalar v | struct values => exact fits
  | reference p =>
    obtain ⟨c, object, fulfils, _⟩ := built.exists_object known set fits
    exact ⟨c, built.grounded.content?_eq_some_iff.mpr object, fulfils⟩

/-- What the tables put into a field are read as. -/
theorem exists_leadsTo (valid : s.Valid) (known : ⟨rev, .table a⟩ ∈ h) {r : Nat}
    (found : r ∈ h.tablesOf a.settings[i]?.join) :
    ∃ f id, s.field? a.table i = some f ∧ f.type.tables? = some id ∧
      (TableView.field ⟨b.finished.data, b.positionOf rev⟩ s a.table i).LeadsTo
        ⟨b.finished.data, b.positionOf r⟩ id := by
  obtain ⟨p, _, set, _⟩ := built.grounded.of_mem_tablesOf found
  obtain ⟨f, field, live, c, object, fulfils⟩ :=
    built.holds known (Option.join_eq_some_iff.mp set)
  obtain ⟨id, tables⟩ := tables?_of_mem_tablesOf object fulfils (set ▸ found)
  have reads := built.readsBack field live valid known
  exact ⟨f, id, field, tables, reads.leadsTo_iff.mpr ⟨tables, r, found, rfl⟩⟩

/-- Objects at one position are one object. -/
theorem rev_eq {c c' : Creation} (known : c ∈ h) (known' : c' ∈ h)
    (same : b.positionOf c.rev = b.positionOf c'.rev) : c.rev = c'.rev := by
  have inside := ((built.laid c known).trailingPad_lt).2
  have inside' := ((built.laid c' known').trailingPad_lt).2
  simp only [positionOf] at same
  omega

private theorem args_eq {a' : TableArgs} (known : ⟨rev, .table a⟩ ∈ h)
    (known' : ⟨rev, .table a'⟩ ∈ h) : a = a' := by
  have content := built.grounded.content?_eq_some_iff.mpr known
  have content' := built.grounded.content?_eq_some_iff.mpr known'
  exact Content.table.inj (Option.some.inj (content.symm.trans content'))

/-- Below a table that is reached as what it was created for, the same holds of the next one. -/
private theorem next_reached (valid : s.Valid) {root first r : Nat}
    (declared : b.ReadsDeclared s h root first) (known : ⟨rev, .table a⟩ ∈ h)
    (reached : s.Reached ⟨b.finished.data, b.positionOf root⟩ first
      ⟨b.finished.data, b.positionOf rev⟩ a.table)
    (found : r ∈ h.tablesOf a.settings[i]?.join) :
    ∃ f a', s.field? a.table i = some f ∧ f.type.tables? = some a'.table ∧ ⟨r, .table a'⟩ ∈ h ∧
      s.Reached ⟨b.finished.data, b.positionOf root⟩ first
        ⟨b.finished.data, b.positionOf r⟩ a'.table := by
  obtain ⟨f, id, field, tables, leads⟩ := built.exists_leadsTo valid known found
  have reached := reached.leadsTo leads
  obtain ⟨rev', isTable, same⟩ := declared _ _ reached
  obtain ⟨a', known', rfl⟩ := built.grounded.tableAt?_eq_some_iff.mp isTable
  obtain ⟨_, _, _, object, _⟩ := built.grounded.of_mem_tablesOf found
  obtain rfl : r = rev' := built.rev_eq object known' (TableView.mk.inj same).2
  exact ⟨f, a', field, tables, known', reached⟩

/-- Every table below the root is reached, as what it was created for. -/
private theorem reached_of_leads (valid : s.Valid) {root : Nat} {first : TableArgs}
    (declared : b.ReadsDeclared s h root first.table) (isRoot : ⟨root, .table first⟩ ∈ h)
    (leads : h.Leads root rev) : ∃ a, ⟨rev, .table a⟩ ∈ h ∧
      s.Reached ⟨b.finished.data, b.positionOf root⟩ first.table
        ⟨b.finished.data, b.positionOf rev⟩ a.table := by
  induction leads with
  | root => exact ⟨first, isRoot, .root⟩
  | step _ known found ih =>
    obtain ⟨_, known', reached⟩ := ih
    obtain rfl := built.args_eq known known'
    obtain ⟨_, a', _, _, next⟩ := built.next_reached valid declared known reached found
    exact ⟨a', next⟩

/-- Where all tables below the root were put where they are declared, each that is read is one of
them. -/
private theorem leads_of_reached (valid : s.Valid) {root id id' : Nat} {t : TableView}
    (typed : h.TypedBelow s root) (isRoot : h.tableAt? root = some id)
    (reached : s.Reached ⟨b.finished.data, b.positionOf root⟩ id t id') :
    ∃ rev, h.Leads root rev ∧ h.tableAt? rev = some id' ∧
      t = ⟨b.finished.data, b.positionOf rev⟩ := by
  have step {t t' : TableView} {id id' i : Nat} (leads : (t.field s id i).LeadsTo t' id')
      (before : ∃ rev, h.Leads root rev ∧ h.tableAt? rev = some id ∧
        t = ⟨b.finished.data, b.positionOf rev⟩) :
      ∃ rev, h.Leads root rev ∧ h.tableAt? rev = some id' ∧
        t' = ⟨b.finished.data, b.positionOf rev⟩ := by
    obtain ⟨rev, below, isTable, rfl⟩ := before
    obtain ⟨a, known, rfl⟩ := built.grounded.tableAt?_eq_some_iff.mp isTable
    obtain ⟨f, field, live⟩ := leads.exists_field
    obtain ⟨tables, r, found, rfl⟩ := (built.readsBack field live valid known).leadsTo_iff.mp leads
    obtain ⟨p, _, set, _⟩ := built.grounded.of_mem_tablesOf found
    have inside := (Array.getElem?_eq_some_iff.mp (Option.join_eq_some_iff.mp set)).1
    have isTable := typed rev a below known i inside f field id' tables r found
    exact ⟨r, below.step known found, isTable, rfl⟩
  induction reached with
  | root => exact ⟨root, .root, isRoot, rfl⟩
  | field _ read ih => exact step (.inl read) ih
  | element _ read get ih => exact step (.inr ⟨_, _, read, get⟩) ih

/-- Reading leads to tables only as what they were created for exactly if all tables below the root
were put where they are declared. -/
theorem readsDeclared_iff (valid : s.Valid) {root id : Nat} (isRoot : h.tableAt? root = some id) :
    b.ReadsDeclared s h root id ↔ h.TypedBelow s root := by
  constructor
  · intro declared rev a leads known i _ f field id' tables r found
    obtain ⟨first, knownRoot, rfl⟩ := built.grounded.tableAt?_eq_some_iff.mp isRoot
    obtain ⟨_, known', reached⟩ := built.reached_of_leads valid declared knownRoot leads
    obtain rfl := built.args_eq known known'
    obtain ⟨_, a', field', tables', object, _⟩ :=
      built.next_reached valid declared known reached found
    obtain rfl := Option.some.inj (field.symm.trans field')
    exact built.grounded.tableAt?_eq_some_iff.mpr
      ⟨a', object, Option.some.inj (tables'.symm.trans tables)⟩
  · intro typed t id' reached
    obtain ⟨rev, _, found⟩ := built.leads_of_reached valid typed isRoot reached
    exact ⟨rev, found⟩

end Built

end Builder

namespace TableArgs
variable {s : Schema} {a : TableArgs} {i : Nat} {f : FieldDef} {name : String}

/-- An object of a kind that the field does not accept is refused. -/
theorem addReference_eq_error {kind : ObjectKind} (named : a.fieldId name = .ok i)
    (writable : a.writable i = .ok f) (other : a.schema.accepts f.type kind = false)
    (r : Ref kind) : a.addReference name r =
      .error (.fieldTypeMismatch f.name (a.schema.typeName f.type) kind.text) := by
  rw [addReference, named]
  change a.setReference i r.placed = _
  rw [setReference, writable]
  change (if a.schema.accepts f.type kind then _ else _) = _
  rw [if_neg (by simp [other])]
  rfl

end TableArgs

namespace Construction
variable {s : Schema} {storage : Storage} {steps : List Step} {x : Construction}
  {root : Ref .table} {identifier : Option Identifier} {f : FinishedBuffer} {b' : Builder} {id : Nat}

/-- An object of a wrong kind is refused when it is put into a field, so all tables of a run hold
only what their fields can hold. Of the tables that reading a finished buffer leads to each is read as
what it was created for exactly if all of them were put where they are declared; of this the builder
asks nothing. -/
theorem readsDeclared_of_finish (valid : s.validate = .ok ())
    (ran : (start storage).run s steps = x) (isRoot : x.history.tableAt? root.rev = some id)
    (finished : runFrom x.builder (Builder.finish root identifier) = (.ok f, b')) :
    (∀ (a : TableArgs) name i field (kind : ObjectKind) (r : Ref kind), a.fieldId name = .ok i →
      a.writable i = .ok field → a.schema.accepts field.type kind = false →
        a.addReference name r =
          .error (.fieldTypeMismatch field.name (a.schema.typeName field.type) kind.text)) ∧
      (∀ rev a, ⟨rev, .table a⟩ ∈ x.history → ∀ i y, a.settings[i]? = some (some y) →
        ∃ field, s.field? a.table i = some field ∧ field.deprecated = false ∧
          y.Holds s x.history field.type) ∧
        ((∀ t id', s.Reached ⟨f.data, b'.positionOf root.rev⟩ id t id' →
          ∃ rev, x.history.tableAt? rev = some id' ∧ t = ⟨f.data, b'.positionOf rev⟩) ↔
            x.history.TypedBelow s root.rev) := by
  have valid := Schema.valid_of_validate valid
  have sound := run_sound valid (start_sound s storage) steps
  rw [ran] at sound
  obtain ⟨rfl, built, _⟩ := sound.finish finished
  refine ⟨?_, ?_, built.readsDeclared_iff valid isRoot⟩
  · intro a name i field kind r named writable other
    exact TableArgs.addReference_eq_error named writable other r
  · intro rev a known i y set
    exact built.holds known set

theorem nodes_readsDeclared :
    ∃ f b', runFrom nodes.builder (Builder.finish ⟨44⟩ none) = (.ok f, b') ∧
      (∀ rev a, ⟨rev, .table a⟩ ∈ nodes.history → ∀ i y, a.settings[i]? = some (some y) →
        ∃ field, Verifier.nodeVerifier.schema.field? a.table i = some field ∧
          field.deprecated = false ∧
            y.Holds Verifier.nodeVerifier.schema nodes.history field.type) ∧
        ∀ t id', Verifier.nodeVerifier.schema.Reached ⟨f.data, b'.positionOf 44⟩ 0 t id' →
          ∃ rev, nodes.history.tableAt? rev = some id' ∧ t = ⟨f.data, b'.positionOf rev⟩ := by
  obtain ⟨f, b', finished, _⟩ := nodes_finish
  obtain ⟨_, holds, reads⟩ := readsDeclared_of_finish rfl rfl nodes_isRoot finished
  exact ⟨f, b', finished, holds, reads.mpr nodes_typed.below⟩

def holderSchema : Schema where
  nameSpace := ""
  attributes := []
  enums := #[]
  structs := #[]
  tables := #[
    ⟨"Holder", #[.plain "leaf" (.table 1)]⟩,
    ⟨"Leaf", #[.plain "count" (.scalar .int)]⟩,
    ⟨"Other", #[.plain "amount" (.scalar .int)]⟩]
  root := some 0

/-- The other table, and a holder that has it for a leaf. -/
def mistaken : Construction := (start (.zeros 0 .standard)).run holderSchema [
  .table 2 [.scalar "amount" (ScalarType.int.value 7)],
  .table 0 [.reference "leaf" ⟨8, .table⟩]]

/-- Nothing is refused, and reading takes the other table for a leaf. -/
theorem mistaken_reads :
    holderSchema.validate = .ok () ∧ mistaken.history.tableAt? 24 = some 0 ∧
      mistaken.history.tableAt? 8 = some 2 ∧
        ∃ f b', runFrom mistaken.builder (Builder.finish ⟨24⟩ none) = (.ok f, b') ∧
          holderSchema.Reached ⟨f.data, b'.positionOf 24⟩ 0 ⟨f.data, b'.positionOf 8⟩ 1 := by
  have isRoot : mistaken.history.tableAt? 24 = some 0 := by decide +kernel
  have isOther : mistaken.history.tableAt? 8 = some 2 := by decide +kernel
  refine ⟨rfl, isRoot, isOther, ?_⟩
  have finishes : (runFrom mistaken.builder (Builder.finish ⟨24⟩ none)).1.toOption.isSome := by
    decide +kernel
  cases finished : runFrom mistaken.builder (Builder.finish ⟨24⟩ none) with
  | mk result b' =>
    rw [finished] at finishes
    cases result with
    | error e => cases finishes
    | ok f =>
      refine ⟨f, b', rfl, ?_⟩
      have valid := Schema.valid_of_validate (s := holderSchema) rfl
      have sound : mistaken.Sound holderSchema := run_sound valid (start_sound _ _) _
      obtain ⟨rfl, built, _⟩ := sound.finish finished
      obtain ⟨a, known, called⟩ := built.grounded.tableAt?_eq_some_iff.mp isRoot
      have put : mistaken.history.putInto 24 0 = [8] := by decide +kernel
      rw [History.putInto, built.grounded.content?_eq_some_iff.mpr known] at put
      have put : mistaken.history.tablesOf a.settings[0]?.join = [8] := put
      have found : 8 ∈ mistaken.history.tablesOf a.settings[0]?.join := by
        rw [put]
        exact List.mem_singleton_self 8
      obtain ⟨field, id, declared, tables, leads⟩ := built.exists_leadsTo valid known found
      rw [called] at declared leads
      cases declared
      cases tables
      exact .leadsTo .root leads

end Construction
end FlatTable

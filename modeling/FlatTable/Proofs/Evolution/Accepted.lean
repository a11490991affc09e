import FlatTable.Proofs.Builder.Isolated
import FlatTable.Proofs.Builder.Verifies
import FlatTable.Proofs.Evolution.Rendered
import FlatTable.Proofs.Verify.Exact

/-! A schema that has grown: what it accepts is accepted by the schema that it was, and what was built by that
schema it accepts as before. -/
namespace FlatTable
open Layout Build

namespace Schema.ExtendedBy
variable {s s' : Schema} {b : Buffer} {o : VerifierOptions} {position id : Nat}

/-! ### Fields -/

section
variable {a c : Schema}

private theorem vectorAt {e : ElementType} {length : Nat} (width : a.elementWidth e = c.elementWidth e)
    (h : Walk.VectorAt ⟨b, a, o⟩ e position length) : Walk.VectorAt ⟨b, c, o⟩ e position length := by
  refine ⟨h.aligned, h.counted, ?_, ?_⟩
  · change _ + _ + _ * c.elementWidth e ≤ _
    rw [← width]
    exact h.inside
  · change 0 < _ → Walk.Aligned _ _ (c.elementWidth e)
    rw [← width]
    exact h.elementsAligned

private theorem refersTo {holder target : Nat} (h : Walk.RefersTo ⟨b, a, o⟩ holder target) :
    Walk.RefersTo ⟨b, c, o⟩ holder target :=
  ⟨h.aligned, h.read, h.forward, h.near, h.inside⟩

private theorem refersToString {holder : Nat} (h : Walk.RefersToString ⟨b, a, o⟩ holder) :
    Walk.RefersToString ⟨b, c, o⟩ holder := by
  obtain ⟨target, bytes, refers, text⟩ := h
  exact ⟨target, bytes, refersTo refers,
    text.aligned, text.counted, text.read, text.decodes, text.terminated⟩

/-- What a type means to a walk are widths and alignments. -/
private theorem fieldWithin {size holder : Nat} {type : FieldType}
    (width : a.inlineWidth type = c.inlineWidth type)
    (alignment : a.inlineAlignment type = c.inlineAlignment type)
    (element : ∀ e, type = .vector e → a.elementWidth e = c.elementWidth e)
    (h : Walk.FieldWithin ⟨b, a, o⟩ position size type holder) :
    Walk.FieldWithin ⟨b, c, o⟩ position size type holder := by
  refine ⟨h.behind, ?_, ?_, ?_⟩
  · change _ + c.inlineWidth type ≤ _
    rw [← width]
    exact h.within
  · change Walk.Aligned _ _ (c.inlineAlignment type)
    rw [← alignment]
    exact h.aligned
  · have field := h.field
    cases type with
    | scalar _ | enum _ | struct _ => trivial
    | string => exact refersToString field
    | table nested =>
      obtain ⟨target, refers⟩ := field
      exact ⟨target, refersTo refers⟩
    | vector e =>
      obtain ⟨target, length, refers, vector, elements⟩ := field
      refine ⟨target, length, refersTo refers, vectorAt (element e rfl) vector, ?_⟩
      cases e with
      | scalar _ | enum _ => trivial
      | string => exact fun i inside => refersToString (elements i inside)
      | table nested =>
        intro i inside
        obtain ⟨target, refers⟩ := elements i inside
        exact ⟨target, refersTo refers⟩

end

/-! ### Tables -/

section
variable (extended : s.ExtendedBy s') (valid : s.Valid)
include extended valid

private theorem fieldWithin_iff {i size holder : Nat} {f : FieldDef} (h : s.field? id i = some f) :
    Walk.FieldWithin ⟨b, s', o⟩ position size f.type holder ↔
      Walk.FieldWithin ⟨b, s, o⟩ position size f.type holder := by
  have resolves := (valid.field h).1
  have width := extended.inlineWidth resolves
  have alignment := extended.inlineAlignment resolves
  have element (e : ElementType) (type : f.type = .vector e) : s'.elementWidth e = s.elementWidth e :=
    extended.elementWidth (type ▸ resolves)
  exact ⟨fieldWithin width alignment element,
    fieldWithin width.symm alignment.symm fun e type => (element e type).symm⟩

private theorem tableAt_of_extended (known : id < s.tables.size)
    (h : Walk.TableAt ⟨b, s', o⟩ position id) : Walk.TableAt ⟨b, s, o⟩ position id := by
  obtain ⟨_, vtable, vtableSize, size, v, fields⟩ := h
  refine ⟨known, vtable, vtableSize, size, ⟨v.aligned, v.read, v.vtableAligned, v.vtableCounted, v.even,
    v.header, v.vtableInside, v.counted, v.smallest, v.inside⟩, fun i f holder field place => ?_⟩
  exact (extended.fieldWithin_iff valid field).mp (fields i f holder (extended.field? field) place)

private theorem tableAt_extended (onlyDeclared : b.OnlyDeclared s (position, id))
    (h : Walk.TableAt ⟨b, s, o⟩ position id) : Walk.TableAt ⟨b, s', o⟩ position id := by
  obtain ⟨known, vtable, vtableSize, size, v, fields⟩ := h
  refine ⟨Nat.lt_of_lt_of_le known extended.size_le, vtable, vtableSize, size, ⟨v.aligned, v.read,
    v.vtableAligned, v.vtableCounted, v.even, v.header, v.vtableInside, v.counted, v.smallest, v.inside⟩,
    fun i f holder field place => ?_⟩
  cases old : s.field? id i with
  | none =>
    have missing : b.fieldPosition? position i = none := onlyDeclared i old
    have stored : b.fieldPosition? position i = some holder := place
    rw [missing] at stored
    cases stored
  | some f' =>
    obtain rfl : f' = f := Option.some.inj ((extended.field? old).symm.trans field)
    exact (extended.fieldWithin_iff valid old).mpr (fields i f' holder old place)

end

/-! ### Tables below tables -/

section
variable (extended : s.ExtendedBy s') (valid : s.Valid) (valid' : s'.Valid)
include extended valid'

/-- The larger schema finds the tables that the smaller one finds, and possibly more behind them. -/
private theorem nested_append (b : Buffer) (position : Nat) (known : id < s.tables.size) :
    ∃ more, b.nested s' position id = b.nested s position id ++ more ∧
      (b.OnlyDeclared s (position, id) → more = []) := by
  have found := Array.getElem?_eq_getElem known
  obtain ⟨d', added, found', fields, isAdded⟩ := extended.exists_added valid' found
  refine ⟨added.flatMap fun x =>
    ((b.fieldPosition? position x.2).map (b.nestedAt x.1.type)).getD [], ?_, fun onlyDeclared => ?_⟩
  · rw [Buffer.nested, found', Buffer.nested, found]
    dsimp only
    rw [fields, List.flatMap_append]
  · refine List.flatMap_eq_nil_iff.mpr fun x member => ?_
    have missing : b.fieldPosition? position x.2 = none := onlyDeclared x.2 (isAdded x member).2.1
    rw [missing]
    rfl

include valid

private theorem wellFormed_of_extended (known : id < s.tables.size)
    (h : Walk.WellFormed ⟨b, s', o⟩ position id) : Walk.WellFormed ⟨b, s, o⟩ position id := by
  induction h with
  | @intro position id table nested ih =>
    obtain ⟨more, found, _⟩ := extended.nested_append valid' b position known
    refine .intro (extended.tableAt_of_extended valid known table) fun c member => ?_
    refine ih c ?_ (valid.known_of_nested member)
    change c ∈ b.nested s' position id
    rw [found]
    exact List.mem_append_left _ member

private theorem wellFormed_extended (h : Walk.WellFormed ⟨b, s, o⟩ position id)
    (onlyDeclared : ∀ n, b.Below s (position, id) n → b.OnlyDeclared s n) :
    Walk.WellFormed ⟨b, s', o⟩ position id := by
  induction h with
  | @intro position id table nested ih =>
    obtain ⟨more, found, none⟩ := extended.nested_append valid' b position table.1
    rw [none (onlyDeclared _ .refl), List.append_nil] at found
    refine .intro (extended.tableAt_extended valid (onlyDeclared _ .refl) table) fun c member => ?_
    have below : c ∈ b.nested s position id := found ▸ member
    exact ih c below fun n further => onlyDeclared n (further.head below)

private theorem tally_le_extended (c : Tally) (known : id < s.tables.size) :
    b.tally c s position id ≤ b.tally c s' position id := by
  induction left : b.size - position using Nat.strongRecOn generalizing position id with
  | ind left ih =>
    subst left
    obtain ⟨more, found, _⟩ := extended.nested_append valid' b position known
    rw [Buffer.tally_eq, Buffer.tally_eq, found, List.map_append, c.all_append, c.comm]
    refine Nat.add_le_add_left (Nat.le_trans (c.all_map_le fun n member => ?_) (c.le_join _ _)) 1
    obtain ⟨behind, inside⟩ := Buffer.lt_of_mem_nested member
    exact ih _ (by omega) (valid.known_of_nested member) rfl

private theorem tally_extended (c : Tally) (known : id < s.tables.size)
    (onlyDeclared : ∀ n, b.Below s (position, id) n → b.OnlyDeclared s n) :
    b.tally c s' position id = b.tally c s position id := by
  induction left : b.size - position using Nat.strongRecOn generalizing position id with
  | ind left ih =>
    subst left
    obtain ⟨more, found, none⟩ := extended.nested_append valid' b position known
    rw [none (onlyDeclared _ .refl), List.append_nil] at found
    rw [Buffer.tally_eq, Buffer.tally_eq, found]
    refine congrArg (1 + c.all ·) (List.map_congr_left fun n member => ?_)
    obtain ⟨behind, inside⟩ := Buffer.lt_of_mem_nested member
    exact ih _ (by omega) (valid.known_of_nested member)
      (fun m below => onlyDeclared m (below.head member)) rfl

end
end Schema.ExtendedBy

/-! ### Buffers -/

namespace Verifier
variable {s s' : Schema} (extended : s.ExtendedBy s') (valid : s.Valid) (valid' : s'.Valid)
  (explicit : s.root.isSome) {v : Verifier} {b : Buffer} {root : Root}
include extended valid valid' explicit

private theorem rootTable?_extended : s'.rootTable? = s.rootTable? := by
  obtain ⟨r, isRoot⟩ := Option.isSome_iff_exists.mp explicit
  rw [valid.rootTable? isRoot, valid'.rootTable? (extended.root.trans isRoot)]

/-- A verifier that asks for no root table that the smaller schema does not have. -/
private theorem root?_of_extended (asked : ∀ id ∈ v.rootTable, id < s.tables.size) {id : Nat}
    (h : root? { v with schema := s' } = some id) :
    root? { v with schema := s } = some id ∧ id < s.tables.size := by
  obtain ⟨found, _⟩ := root?_eq_some_iff.mp h
  have found : v.rootTable.or s'.rootTable? = some id := found
  rw [rootTable?_extended extended valid valid' explicit] at found
  have known : id < s.tables.size := by
    rcases Option.or_eq_some_iff.mp found with table | ⟨_, table⟩
    · exact asked id table
    · obtain ⟨r, isRoot⟩ := Option.isSome_iff_exists.mp explicit
      rw [valid.rootTable? isRoot] at table
      cases table
      exact valid.root id isRoot
  exact ⟨root?_eq_some_iff.mpr ⟨found, known⟩, known⟩

private theorem root?_extended {id : Nat} (h : root? { v with schema := s } = some id) :
    root? { v with schema := s' } = some id := by
  obtain ⟨found, known⟩ := root?_eq_some_iff.mp h
  refine root?_eq_some_iff.mpr ⟨?_, Nat.lt_of_lt_of_le known extended.size_le⟩
  change v.rootTable.or s'.rootTable? = some id
  rw [rootTable?_extended extended valid valid' explicit]
  exact found

/-- What is accepted by the larger schema is accepted by the smaller one, with the same root. -/
theorem verify_of_extended (asked : ∀ id ∈ v.rootTable, id < s.tables.size)
    (h : verify { v with schema := s' } b = .ok root) :
    verify { v with schema := s } b = .ok root ∧ root.table < s.tables.size := by
  obtain ⟨header, isRoot, reference, wellFormed, shallow, few⟩ := verify_eq_ok_iff.mp h
  obtain ⟨isRoot, known⟩ := root?_of_extended extended valid valid' explicit asked isRoot
  refine ⟨verify_eq_ok_iff.mpr ⟨⟨header.small, header.large, header.tagged⟩, isRoot, ?_, ?_, ?_, ?_⟩,
    known⟩
  · exact ⟨reference.aligned, reference.read, reference.forward, reference.near, reference.inside⟩
  · exact extended.wellFormed_of_extended valid valid' known wellFormed
  · exact Nat.le_trans (extended.tally_le_extended valid valid' .max known) shallow
  · exact Nat.le_trans (extended.tally_le_extended valid valid' .sum known) few

/-- What is accepted by the smaller schema is accepted by the larger one, if it stores nothing that only the
larger one declares. -/
theorem verify_extended (h : verify { v with schema := s } b = .ok root)
    (onlyDeclared : ∀ n, b.Below s (root.position, root.table) n → b.OnlyDeclared s n) :
    verify { v with schema := s' } b = .ok root := by
  obtain ⟨header, isRoot, reference, wellFormed, shallow, few⟩ := verify_eq_ok_iff.mp h
  have known : root.table < s.tables.size := (root?_eq_some_iff.mp isRoot).2
  refine verify_eq_ok_iff.mpr ⟨⟨header.small, header.large, header.tagged⟩,
    root?_extended extended valid valid' explicit isRoot, ?_, ?_, ?_, ?_⟩
  · exact ⟨reference.aligned, reference.read, reference.forward, reference.near, reference.inside⟩
  · exact extended.wellFormed_extended valid valid' wellFormed onlyDeclared
  · exact (extended.tally_extended valid valid' .max known onlyDeclared).trans_le shallow
  · exact (extended.tally_extended valid valid' .sum known onlyDeclared).trans_le few

end Verifier

namespace Builder.Built
variable {s : Schema} {h : History} {b : Builder}

/-- The tables of a run store no fields that their schema does not declare. -/
theorem onlyDeclared (built : b.Built s h) (typed : h.Typed s) {rev : Nat} {a : TableArgs}
    (known : ⟨rev, .table a⟩ ∈ h) {n : Nat × Nat}
    (below : b.finished.data.Below s (b.positionOf rev, a.table) n) :
    b.finished.data.OnlyDeclared s n := by
  obtain ⟨rev', a', isTable, rfl⟩ := built.known_of_below typed known below
  obtain ⟨start, slots, laid⟩ : ∃ start slots, b.TableLaid rev' a' start slots :=
    built.laid _ isTable
  intro i undeclared
  refine laid.fieldPosition?_of_unset fun x set => ?_
  obtain ⟨f, declared, _⟩ := (built.fits _ isTable a' rfl).setting i x set
  rw [undeclared] at declared
  cases declared

end Builder.Built
namespace Schema
variable {s s' : Schema}

/-- A schema may grow, its root being declared. What the larger schema accepts the smaller one accepts with the
same options, and renders without the added fields. What was built by the smaller one, each table for what it
is used as, the larger one accepts as the smaller one does, and renders with the defaults of the added
fields. -/
theorem evolves (valid : s.validate = .ok ()) (valid' : s'.validate = .ok ())
    (extended : s.ExtendedBy s') (explicit : s.root.isSome) :
    (∀ (v : Verifier) (b : Buffer) (root : Root), (∀ id ∈ v.rootTable, id < s.tables.size) →
      Verifier.verify { v with schema := s' } b = .ok root →
        Verifier.verify { v with schema := s } b = .ok root ∧
          s.tableJson ⟨b, root.position⟩ root.table =
            s.withoutAdded (.table root.table) (s'.tableJson ⟨b, root.position⟩ root.table)) ∧
      ∀ (storage : Storage) (steps : List Step) (x : Construction) (root : Ref .table) (id : Nat)
        (identifier : Option Identifier) (f : FinishedBuffer) (b' : Builder),
        (Construction.start storage).run s steps = x → x.history.Typed s →
        x.history.tableAt? root.rev = some id →
        runFrom x.builder (Builder.finish root identifier) = (.ok f, b') →
          ∃ t, f.data.table? 0 = some t ∧
            s'.tableJson t id = s.withDefaults s' (.table id) (s.tableJson t id) ∧
            ∀ (v : Verifier) (found : Root), Verifier.root? { v with schema := s } = some id →
              Verifier.verify { v with schema := s } f.data = .ok found →
                found = ⟨t.position, id⟩ ∧ Verifier.verify { v with schema := s' } f.data = .ok found := by
  have valid := valid_of_validate valid
  have valid' := valid_of_validate valid'
  refine ⟨fun v b root asked accepted => ?_, ?_⟩
  · obtain ⟨accepted', known⟩ :=
      Verifier.verify_of_extended extended valid valid' explicit asked accepted
    exact ⟨accepted', (extended.withoutAdded_tableJson valid valid' ⟨b, root.position⟩ known).symm⟩
  · intro storage steps x root id identifier f b' ran typed isRoot finished
    have sound := Construction.run_sound valid (Construction.start_sound s storage) steps
    rw [ran] at sound
    obtain ⟨rfl, built, rooted⟩ := sound.finish finished
    obtain ⟨a, object, rfl⟩ := built.grounded.tableAt?_eq_some_iff.mp isRoot
    have reference := built.refersTo (o := .standard) rooted.reference object
    rw [Builder.positionOf_length] at reference
    have onlyDeclared (n : Nat × Nat)
        (below : b'.finished.data.Below s (b'.positionOf root.rev, a.table) n) :
        b'.finished.data.OnlyDeclared s n := built.onlyDeclared typed object below
    obtain ⟨_, declared, _⟩ := (built.fits _ object a rfl).table
    have rendered := extended.withDefaults_tableJson valid valid'
      ⟨b'.finished.data, b'.positionOf root.rev⟩ (Array.getElem?_eq_some_iff.mp declared).1 onlyDeclared
    refine ⟨⟨b'.finished.data, b'.positionOf root.rev⟩, reference.table?, rendered.symm,
      fun v found rooted accepted => ?_⟩
    obtain ⟨_, isRoot, reference', _⟩ := Verifier.verify_eq_ok_iff.mp accepted
    have place : found.position = b'.positionOf root.rev :=
      Option.some.inj (reference'.read.symm.trans reference.read)
    have table : found.table = a.table := Option.some.inj (isRoot.symm.trans rooted)
    refine ⟨by rw [← place, ← table], ?_⟩
    refine Verifier.verify_extended extended valid valid' explicit accepted fun n below => ?_
    rw [place, table] at below
    exact onlyDeclared n below

/-- Nodes that may also have a weight, which is 3 if nothing is said, and an alias, and a table of tags. -/
def taggedNodes : Schema where
  nameSpace := ""
  attributes := []
  enums := #[⟨"Color", .byte, [⟨"Red", 0⟩, ⟨"Green", 1⟩]⟩]
  structs := #[]
  tables := #[⟨"Node", #[
      { FieldDef.plain "value" (.scalar .short) with
        declared := some (ScalarType.short.value 5) },
      .plain "name" .string,
      .plain "next" (.vector (.table 0)),
      { FieldDef.plain "weight" (.scalar .int) with
        declared := some (ScalarType.int.value 3) },
      .plain "alias" .string,
      .plain "color" (.enum 0)]⟩,
    ⟨"Tag", #[.plain "node" (.table 0)]⟩]
  root := some 0

theorem taggedNodes_extend : Verifier.nodeVerifier.schema.ExtendedBy taggedNodes := by
  refine ⟨⟨_, rfl⟩, List.prefix_rfl, fun id t found => ?_, rfl⟩
  have known := (Array.getElem?_eq_some_iff.mp found).1
  obtain rfl : id = 0 := Nat.lt_one_iff.mp known
  cases found
  exact ⟨_, rfl, rfl, ⟨_, rfl⟩⟩

open Verifier in
theorem nodes_evolve :
    nodeVerifier.schema.validate = .ok () ∧ taggedNodes.validate = .ok () ∧
      nodeVerifier.schema.ExtendedBy taggedNodes ∧ nodeVerifier.schema.root.isSome ∧
      verify { nodeVerifier with schema := taggedNodes } twoNodes = .ok ⟨16, 0⟩ ∧
      nodeVerifier.schema.tableJson ⟨twoNodes, 16⟩ 0 =
        nodeVerifier.schema.withoutAdded (.table 0) (taggedNodes.tableJson ⟨twoNodes, 16⟩ 0) ∧
      ∃ f b', runFrom Construction.nodes.builder (Builder.finish ⟨44⟩ none) = (.ok f, b') ∧
        ∃ t, f.data.table? 0 = some t ∧ taggedNodes.tableJson t 0 =
          nodeVerifier.schema.withDefaults taggedNodes (.table 0) (nodeVerifier.schema.tableJson t 0) := by
  obtain ⟨older, newer⟩ := evolves (s := nodeVerifier.schema) rfl rfl taggedNodes_extend rfl
  have accepted : verify { nodeVerifier with schema := taggedNodes } twoNodes = .ok ⟨16, 0⟩ := rfl
  obtain ⟨f, b', finished, _⟩ := Construction.nodes_finish
  obtain ⟨t, isRoot, rendered, _⟩ := newer _ _ _ _ _ _ f b' rfl Construction.nodes_typed
    Construction.nodes_isRoot finished
  exact ⟨rfl, rfl, taggedNodes_extend, rfl, accepted,
    (older nodeVerifier twoNodes ⟨16, 0⟩ (by decide) accepted).2, f, b', finished, t, isRoot, rendered⟩

end Schema
end FlatTable

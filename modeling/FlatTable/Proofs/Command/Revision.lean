import Mathlib
import FlatTable.Proofs.Command.Activities
import FlatTable.Proofs.Command.Files
import FlatTable.Proofs.Mutate.Writes

/-! Changing a file from the command line: either every assignment is carried out, one after the other,
and one file is written, or no file changes. -/
namespace FlatTable.CommandLine
open Activity

variable {w w' : World}

/-! ### Assignments -/

inductive IsElement : FieldType → ElementType → Prop
  | scalar (t : ScalarType) : IsElement (.scalar t) (.scalar t)
  | enum (id : Nat) : IsElement (.enum id) (.enum id)

section
variable {s : Session} {a : Assignment} {t : TableDef} {type : FieldType} {id : Nat} {text : String}
  {texts : List String} {b b' : Buffer}

/-- An assignment to the field `id` of the root, which is of a type: its value is one of the type that
it is for, and the place in the buffer takes it. -/
inductive Changes (s : Schema) (root : Root) (a : Assignment) (id : Nat) (b : Buffer) :
    FieldType → Buffer → Prop
  | field {type : FieldType} {v : Value} {b' : Buffer} (whole : a.member = none ∧ a.index = none)
      (value : s.parseScalar? type a.value = some v)
      (taken : MutableTable.setField? ⟨s, b, root.position, root.table⟩ id v = some b') :
      Changes s root a id b type b'
  | member {struct i : Nat} {name : String} {d : StructDef} {m : Member} {v : Value} {b' : Buffer}
      (part : a.member = some name ∧ a.index = none) (declared : s.structs[struct]? = some d)
      (named : d.memberId? name = some i) (found : d.members[i]? = some m)
      (value : s.parseScalar? (.scalar m.type) a.value = some v)
      (taken : MutableTable.setMember? ⟨s, b, root.position, root.table⟩ id i v = some b') :
      Changes s root a id b (.struct struct) b'
  | element {e : ElementType} {type : FieldType} {i : Nat} {v : Value} {b' : Buffer}
      (part : a.member = none ∧ a.index = some i) (single : IsElement type e)
      (value : s.parseScalar? type a.value = some v)
      (taken : MutableTable.setElement? ⟨s, b, root.position, root.table⟩ id i v = some b') :
      Changes s root a id b (.vector e) b'

/-- A text is an assignment to a field of the root table, and it has been carried out. -/
inductive Assigned (s : Schema) (root : Root) (t : TableDef) (text : String) (b b' : Buffer) : Prop
  | intro {a : Assignment} {id : Nat} {f : FieldDef} (read : Assignment.ofText text = .ok a)
      (named : t.fieldId? a.field = some id) (found : t.fields[id]? = some f)
      (changes : Changes s root a id b f.type b')

/-- The assignments have been carried out from left to right, each in the bytes that the one before it
has left. -/
inductive AssignedAll (s : Schema) (root : Root) (t : TableDef) :
    List String → Buffer → Buffer → Prop
  | nil (b : Buffer) : AssignedAll s root t [] b b
  | cons {text : String} {texts : List String} {b b' b'' : Buffer}
      (first : Assigned s root t text b b') (rest : AssignedAll s root t texts b' b'') :
      AssignedAll s root t (text :: texts) b b''

theorem within_elementField_eq_ok_iff {field : String} {element : FieldType} :
    (elementField field type).within w = (.ok element, w') ↔
      (∃ e, type = .vector e ∧ IsElement element e) ∧ w' = w := by
  unfold elementField
  split
  · rename_i t
    rw [within_pure_eq_ok_iff]
    refine and_congr_left fun _ => ⟨?_, ?_⟩
    · rintro rfl
      exact ⟨_, rfl, .scalar t⟩
    · rintro ⟨_, ⟨⟩, ⟨⟩⟩
      rfl
  · rename_i id
    rw [within_pure_eq_ok_iff]
    refine and_congr_left fun _ => ⟨?_, ?_⟩
    · rintro rfl
      exact ⟨_, rfl, .enum id⟩
    · rintro ⟨_, ⟨⟩, ⟨⟩⟩
      rfl
  · rename_i notScalar notEnum
    refine iff_of_false (by simp [within_throw]) ?_
    rintro ⟨⟨_, ⟨⟩, single⟩, _⟩
    cases single with
    | scalar t => exact notScalar t rfl
    | enum id => exact notEnum id rfl
  · rename_i notVector
    refine iff_of_false (by simp [within_throw]) ?_
    rintro ⟨⟨e, rfl, single⟩, _⟩
    cases single with
    | scalar t => exact absurd rfl (notVector _)
    | enum id => exact absurd rfl (notVector _)

theorem within_assignedValue_eq_ok_iff {schema : Schema} {v : Value} :
    (assignedValue schema type text).within w = (.ok v, w') ↔
      schema.parseScalar? type text = some v ∧ w' = w := within_require_eq_ok_iff

theorem within_assignment_eq_ok_iff :
    (assignment text).within w = (.ok a, w') ↔ Assignment.ofText text = .ok a ∧ w' = w := by
  unfold assignment
  cases Assignment.ofText text with
  | ok a' => rw [within_pure_eq_ok_iff, Except.ok.injEq, eq_comm]
  | error e => cases e <;> simp [within_throw]

theorem within_assign_eq_ok_iff :
    (assign s a id type).within w = (.ok (some b'), w') ↔
      Changes s.verifier.schema s.root a id s.buffer type b' ∧ w' = w := by
  unfold assign
  split
  · rename_i name struct member index
    simp only [within_bind_eq_ok_iff, within_require_eq_ok_iff, within_assignedValue_eq_ok_iff,
      within_pure_eq_ok_iff]
    constructor
    · rintro ⟨d, _, ⟨declared, rfl⟩, i, _, ⟨named, rfl⟩, m, _, ⟨found, rfl⟩, v, _, ⟨value, rfl⟩,
        taken, rfl⟩
      exact ⟨.member ⟨member, index⟩ declared named found value taken.symm, rfl⟩
    · rintro ⟨changes, rfl⟩
      cases changes with
      | field whole => cases member.symm.trans whole.1
      | member part declared named found value taken =>
        cases member.symm.trans part.1
        exact ⟨_, w', ⟨declared, rfl⟩, _, w', ⟨named, rfl⟩, _, w', ⟨found, rfl⟩, _, w', ⟨value, rfl⟩,
          taken.symm, rfl⟩
  · rename_i name member notPart
    refine iff_of_false (by simp [within_throw]) ?_
    rintro ⟨changes, _⟩
    cases changes with
    | field whole => cases member.symm.trans whole.1
    | member part => exact notPart _ part.2 rfl
    | element part => cases member.symm.trans part.1
  · rename_i member index
    simp only [within_bind_eq_ok_iff, within_assignedValue_eq_ok_iff, within_pure_eq_ok_iff]
    constructor
    · rintro ⟨v, _, ⟨value, rfl⟩, taken, rfl⟩
      exact ⟨.field ⟨member, index⟩ value taken.symm, rfl⟩
    · rintro ⟨changes, rfl⟩
      cases changes with
      | field whole value taken => exact ⟨_, w', ⟨value, rfl⟩, taken.symm, rfl⟩
      | member part => cases member.symm.trans part.1
      | element part => cases index.symm.trans part.2
  · rename_i i member index
    simp only [within_bind_eq_ok_iff, within_assignedValue_eq_ok_iff, within_pure_eq_ok_iff,
      within_elementField_eq_ok_iff]
    constructor
    · rintro ⟨element, _, ⟨⟨e, rfl, single⟩, rfl⟩, v, _, ⟨value, rfl⟩, taken, rfl⟩
      exact ⟨.element ⟨member, index⟩ single value taken.symm, rfl⟩
    · rintro ⟨changes, rfl⟩
      cases changes with
      | field whole => cases index.symm.trans whole.2
      | member part => cases member.symm.trans part.1
      | element part single value taken =>
        cases index.symm.trans part.2
        exact ⟨_, w', ⟨⟨_, rfl, single⟩, rfl⟩, _, w', ⟨value, rfl⟩, taken.symm, rfl⟩

theorem onlyPrints_assignment (text : String) : (assignment text).OnlyPrints := by
  unfold assignment
  split
  · exact .pure _
  · exact .throw _
  · exact .throw _

theorem onlyPrints_elementField (field : String) (type : FieldType) :
    (elementField field type).OnlyPrints := by
  unfold elementField
  split
  · exact .pure _
  · exact .pure _
  · exact .throw _
  · exact .throw _

theorem onlyPrints_assign (s : Session) (a : Assignment) (id : Nat) (type : FieldType) :
    (assign s a id type).OnlyPrints := by
  have value (type : FieldType) : (assignedValue s.verifier.schema type a.value).OnlyPrints :=
    onlyPrints_require _ _
  unfold assign
  split
  · exact (onlyPrints_require _ _).bind fun _ => (onlyPrints_require _ _).bind fun _ =>
      (onlyPrints_require _ _).bind fun _ => (value _).bind fun _ => .pure _
  · exact .throw _
  · exact (value _).bind fun _ => .pure _
  · exact (onlyPrints_elementField _ _).bind fun _ => (value _).bind fun _ => .pure _

theorem onlyPrints_applyAll (t : TableDef) (s : Session) (texts : List String) :
    (applyAll t s texts).OnlyPrints := by
  induction texts generalizing s with
  | nil => exact .pure s
  | cons text texts ih =>
    exact (onlyPrints_assignment text).bind fun _ => (onlyPrints_require _ _).bind fun _ =>
      (onlyPrints_require _ _).bind fun _ => (onlyPrints_assign s _ _ _).bind fun _ =>
      (onlyPrints_require _ _).bind fun _ => (onlyPrints_print _).bind fun _ => ih _

/-- An assignment that is carried out replaces the bytes of one value inside the buffer. -/
theorem Changes.written {schema : Schema} {root : Root} (h : Changes schema root a id b type b') :
    ∃ (position : Nat) (v : Value), b.Written b' position v.bytes := by
  cases h with
  | @field _ v _ _ _ taken =>
    obtain ⟨_, p, _, _, _, _, write⟩ := MutableTable.setField?_eq_some_iff.mp taken
    exact ⟨p, v, Buffer.written_of_write? write⟩
  | @member _ _ _ _ _ v _ _ _ _ _ _ taken =>
    obtain ⟨_, _, _, _, _, p, _, _, _, _, _, _, _, _, write⟩ :=
      MutableTable.setMember?_eq_some_iff.mp taken
    exact ⟨_, v, Buffer.written_of_write? write⟩
  | @element _ _ _ v _ _ _ _ taken =>
    obtain ⟨_, _, _, _, write⟩ := MutableTable.setElement?_eq_some_iff.mp taken
    exact ⟨_, v, Buffer.written_of_write? write⟩

theorem AssignedAll.size {schema : Schema} {root : Root} (h : AssignedAll schema root t texts b b') :
    b'.size = b.size := by
  induction h with
  | nil => rfl
  | cons first _ ih =>
    obtain ⟨_, _, _, changes⟩ := first
    obtain ⟨_, _, written⟩ := changes.written
    rw [ih, written.size]

def tick (text : String) : String := "  ✓ " ++ text

/-- All assignments are carried out exactly if each of them can be in the bytes that it meets. -/
theorem within_applyAll_eq_ok_iff {s' : Session} :
    (applyAll t s texts).within w = (.ok s', w') ↔
      (∃ b', AssignedAll s.verifier.schema s.root t texts s.buffer b' ∧
        s' = { s with buffer := b' }) ∧ w' = w.print (texts.map tick) := by
  induction texts generalizing s w with
  | nil =>
    rw [applyAll, within_pure_eq_ok_iff]
    constructor
    · rintro ⟨rfl, rfl⟩
      exact ⟨⟨_, .nil _, rfl⟩, rfl⟩
    · rintro ⟨⟨_, ⟨⟩, rfl⟩, rfl⟩
      exact ⟨rfl, rfl⟩
  | cons text texts ih =>
    simp only [applyAll, within_bind_eq_ok_iff, within_assignment_eq_ok_iff,
      within_require_eq_ok_iff, within_print, ih]
    constructor
    · rintro ⟨a, _, ⟨read, rfl⟩, id, _, ⟨named, rfl⟩, f, _, ⟨found, rfl⟩, _, _, assigned, b', _,
        ⟨rfl, rfl⟩, _, _, printed, ⟨b'', rest, rfl⟩, rfl⟩
      obtain ⟨changes, rfl⟩ := within_assign_eq_ok_iff.mp assigned
      obtain rfl := (Prod.mk.inj printed).2
      exact ⟨⟨b'', .cons ⟨read, named, found, changes⟩ rest, rfl⟩,
        World.print_append _ [tick text] _⟩
    · rintro ⟨⟨b'', all, rfl⟩, rfl⟩
      cases all with
      | @cons _ _ _ b' _ first rest =>
        obtain ⟨read, named, found, changes⟩ := first
        exact ⟨_, w, ⟨read, rfl⟩, _, w, ⟨named, rfl⟩, _, w, ⟨found, rfl⟩, some b', w,
          within_assign_eq_ok_iff.mpr ⟨changes, rfl⟩, b', w, ⟨rfl, rfl⟩, (), _, rfl,
          ⟨b'', rest, rfl⟩, (World.print_append _ [tick text] _).symm⟩

/-- The bytes and the assignments tell what they lead to. -/
theorem AssignedAll.unique {schema : Schema} {root : Root} {b'' : Buffer}
    (h : AssignedAll schema root t texts b b') (h' : AssignedAll schema root t texts b b'') :
    b' = b'' := by
  let s : Session := ⟨.standard schema, b, root, 0⟩
  let w : World := ⟨⟨[]⟩, #[], [], []⟩
  have first := within_applyAll_eq_ok_iff (s := s) (w := w) |>.mpr ⟨⟨b', h, rfl⟩, rfl⟩
  have second := within_applyAll_eq_ok_iff (s := s) (w := w) |>.mpr ⟨⟨b'', h', rfl⟩, rfl⟩
  simpa using first.symm.trans second

end

/-! ### The command -/

section
variable {file : String} {texts : List String} {output schemaFile : Option String} {c : Checks}
  {after : Buffer}

/-- What a change of a file takes, and the bytes that it leads to: the file is accepted, every
assignment is carried out, and the bytes are accepted again by the same verifier. -/
inductive Revises (fs : FileSystem) (file : String) (texts : List String)
    (schemaFile : Option String) (c : Checks) (after : Buffer) : Prop
  | intro {v : Verifier} {b : Buffer} {root root' : Root} {t : TableDef}
      (before : AcceptedAt fs file schemaFile c v b root)
      (declared : v.schema.tables[root.table]? = some t)
      (assigned : AssignedAll v.schema root t texts b after) (again : v.verify after = .ok root')

/-- What a change of a file leads to is determined. -/
theorem Revises.unique {fs : FileSystem} {after' : Buffer}
    (h : Revises fs file texts schemaFile c after) (h' : Revises fs file texts schemaFile c after') :
    after = after' := by
  obtain ⟨before, declared, assigned, _⟩ := h
  obtain ⟨before', declared', assigned', _⟩ := h'
  obtain rfl := before.asked.unique before'.asked
  obtain rfl := Except.ok.inj (before.found.symm.trans before'.found)
  obtain rfl := Except.ok.inj (before.accepted.symm.trans before'.accepted)
  obtain rfl := Option.some.inj (declared.symm.trans declared')
  exact assigned.unique assigned'

/-- After the assignments a session is taken up again exactly if its verifier accepts the bytes. -/
theorem reverify_eq_ok_iff {v : Verifier} {s s' : Session} {b : Buffer}
    (started : Session.start v b = .ok s) :
    Session.reverify { s with buffer := after } = .ok s' ↔
      ∃ root, v.verify after = .ok root ∧
        s' = ⟨{ v with rootTable := some s.root.table }, after, root, Crc32.checksum after⟩ := by
  have sound := Editing.start_sound started
  obtain ⟨root, _, rfl⟩ := Editing.start_eq_ok_iff.mp started
  exact Editing.reverify_eq_ok_iff (m := ⟨⟨v, after, root, Crc32.checksum b⟩, [], []⟩)
    ⟨sound.alike, sound.root, sound.known⟩

theorem within_runMutate_eq_ok_iff :
    (runMutate file texts output schemaFile c).within w = (.ok (), w') ↔
      ∃ after files, Revises w.files file texts schemaFile c after ∧
        w.files.write (output.getD file) after = .ok files ∧
          w' = World.print { w with files := files }
            (texts.map tick ++ ["✓ wrote " ++ output.getD file]) := by
  simp only [runMutate, within_bind_eq_ok_iff, within_loadSchema_eq_ok_iff,
    within_readBytes_eq_ok_iff, within_verifier_eq_ok_iff, within_orFail_eq_ok_iff,
    within_require_eq_ok_iff, within_applyAll_eq_ok_iff, within_write_eq_ok_iff, within_print]
  constructor
  · rintro ⟨s, _, ⟨loaded, rfl⟩, b, _, ⟨found, rfl⟩, v, _, ⟨⟨tag, tagged, rfl⟩, rfl⟩, start, _,
      ⟨started, rfl⟩, t, _, ⟨declared, rfl⟩, _, _, ⟨⟨after, assigned, rfl⟩, rfl⟩, final, _,
      ⟨verified, rfl⟩, _, _, ⟨files, written, rfl⟩, printed⟩
    obtain ⟨root', again, rfl⟩ := (reverify_eq_ok_iff started).mp verified
    obtain ⟨root, accepted, rfl⟩ := Editing.start_eq_ok_iff.mp started
    obtain rfl := (Prod.mk.inj printed).2
    exact ⟨after, files, ⟨⟨⟨loaded, tagged⟩, found, accepted⟩, declared, assigned, again⟩, written,
      World.print_append ⟨files, _, _, _⟩ _ _⟩
  · rintro ⟨after, files, ⟨⟨⟨loaded, tagged⟩, found, accepted⟩, declared, assigned, again⟩, written,
      rfl⟩
    have started := Editing.start_eq_ok_iff.mpr ⟨_, accepted, rfl⟩
    exact ⟨_, w, ⟨loaded, rfl⟩, _, w, ⟨found, rfl⟩, _, w, ⟨⟨_, tagged, rfl⟩, rfl⟩, _, w,
      ⟨started, rfl⟩, _, w, ⟨declared, rfl⟩, _, _, ⟨⟨after, assigned, rfl⟩, rfl⟩, _, _,
      ⟨(reverify_eq_ok_iff started).mpr ⟨_, again, rfl⟩, rfl⟩, (), _, ⟨files, written, rfl⟩,
      Prod.ext rfl (World.print_append ⟨files, _, _, _⟩ _ _)⟩

theorem failsClean_runMutate (file : String) (texts : List String)
    (output schemaFile : Option String) (c : Checks) :
    (runMutate file texts output schemaFile c).FailsClean :=
  .bind (onlyPrints_loadSchema _) fun _ => .bind (onlyPrints_readBytes _) fun _ =>
    .bind (onlyPrints_verifier _ _) fun _ => .bind (onlyPrints_orFail _ _) fun _ =>
    .bind (onlyPrints_require _ _) fun _ => .bind (onlyPrints_applyAll _ _ _) fun _ =>
    .bind (onlyPrints_orFail _ _) fun _ => failsClean_write_print _ _ _

/-- The command is all or nothing. It succeeds exactly if the file is accepted, every assignment can be
carried out in the bytes that it meets, what they lead to is accepted again and can be written. Then
the one file that is written holds these bytes. If not, the command fails and no file is different. -/
theorem mutate_all_or_nothing (style : Terminal.Style) {args : List String} {code : UInt32}
    (asked : parse args = .command (.mutate file texts output schemaFile c))
    (ran : (run style args).run w = (code, w')) :
    (code = 0 ∧ w'.errors = w.errors ∧ ∃ after, Revises w.files file texts schemaFile c after ∧
      w.files.write (output.getD file) after = .ok w'.files ∧
        w.files.Puts (output.getD file) after w'.files) ∨
    (code = 1 ∧ w'.files = w.files ∧ (∃ message, w'.errors = ("❌ " ++ message) :: w.errors) ∧
      ∀ after files, Revises w.files file texts schemaFile c after →
        w.files.write (output.getD file) after ≠ .ok files) := by
  rw [run_command asked, Command.run] at ran
  split at ran
  · rename_i v succeeded
    obtain ⟨rfl, rfl⟩ := Prod.mk.inj ran
    obtain ⟨after, files, revises, written, rfl⟩ := within_runMutate_eq_ok_iff.mp succeeded
    exact .inl ⟨rfl, rfl, after, revises, written, FileSystem.puts_of_write written⟩
  · rename_i e v failed
    obtain ⟨rfl, rfl⟩ := Prod.mk.inj ran
    obtain ⟨lines, rfl⟩ := failsClean_runMutate _ _ _ _ _ _ _ _ failed
    refine .inr ⟨rfl, rfl, ⟨_, rfl⟩, ?_⟩
    intro after files revises written
    have succeeded := within_runMutate_eq_ok_iff.mpr ⟨after, files, revises, written, rfl⟩
    rw [succeeded] at failed
    cases failed

/-- The buffer of a character whose only stored field is the `hp`. -/
def wounded (hp : UInt8) : Buffer :=
  #[12, 0, 0, 0, 8, 0, 8, 0, 0, 0, 4, 0, 8, 0, 0, 0, hp, 0, 0, 0]

def woundedWorld : World := ⟨.ofFiles [("a", wounded 7)], #[], [], []⟩

private theorem assigned_wounded {text value : String} {old new : UInt8} {v : Value}
    (read : Assignment.ofText text = .ok ⟨"hp", none, none, value⟩)
    (parsed : Character.schema.parseScalar? (.scalar .int) value = some v)
    (taken : MutableTable.setField? ⟨Character.schema, wounded old, 12, 0⟩ 1 v = some (wounded new)) :
    Assigned Character.schema ⟨12, 0⟩ Character.schema.tables[0] text (wounded old) (wounded new) := by
  have named : Character.schema.tables[0].fieldId? "hp" = some 1 := by
    decide +kernel
  obtain ⟨f, found, isInt⟩ : ∃ f, Character.schema.tables[0].fields[1]? = some f ∧
    f.type = .scalar .int := ⟨_, Array.getElem?_eq_getElem (by decide), by decide +kernel⟩
  exact ⟨read, named, found, isInt ▸ .field ⟨rfl, rfl⟩ parsed taken⟩

theorem revises_wounded :
    Revises woundedWorld.files "a" ["hp=8", "hp=9"] none ⟨64, 1000000, false, none⟩ (wounded 9) := by
  have eight : Assigned Character.schema ⟨12, 0⟩ Character.schema.tables[0] "hp=8" (wounded 7)
      (wounded 8) :=
    assigned_wounded (v := ScalarType.int.value 8) (by cbv) (by decide +kernel) (by decide +kernel)
  have nine : Assigned Character.schema ⟨12, 0⟩ Character.schema.tables[0] "hp=9" (wounded 8)
      (wounded 9) :=
    assigned_wounded (v := ScalarType.int.value 9) (by cbv) (by decide +kernel) (by decide +kernel)
  have found : woundedWorld.files.read "a" = .ok (wounded 7) := by cbv
  have accepted : (Verifier.standard Character.schema).verify (wounded 7) = .ok ⟨12, 0⟩ := by rfl
  have again : (Verifier.standard Character.schema).verify (wounded 9) = .ok ⟨12, 0⟩ := by rfl
  have declared : Character.schema.tables[0]? = some Character.schema.tables[0] := by rfl
  exact ⟨⟨⟨.builtIn, .none⟩, found, accepted⟩, declared, .cons eight (.cons nine (.nil _)), again⟩

/-- The second assignment wins. -/
theorem mutate_wounded :
    ∃ w', (run .plain ["mutate", "a", "hp=8", "hp=9"]).run woundedWorld = (0, w') ∧
      w'.files.read "a" = .ok (wounded 9) := by
  have asked : parse ["mutate", "a", "hp=8", "hp=9"] =
      .command (.mutate "a" ["hp=8", "hp=9"] none none ⟨64, 1000000, false, none⟩) := by cbv
  obtain ⟨⟨code, w'⟩, ran⟩ : ∃ result, (run .plain ["mutate", "a", "hp=8", "hp=9"]).run woundedWorld =
    result := ⟨_, rfl⟩
  rcases mutate_all_or_nothing .plain asked ran with
    ⟨rfl, _, after, revises, _, puts⟩ | ⟨_, _, _, never⟩
  · exact ⟨w', ran, revises.unique revises_wounded ▸ puts.read⟩
  · have written : woundedWorld.files.write "a" (wounded 9) =
        .ok ⟨[(["a"], .file (wounded 9))]⟩ := by cbv
    exact absurd written (never _ _ revises_wounded)

end
end FlatTable.CommandLine

import FlatTable.Proofs.Builder.Ends
import FlatTable.Proofs.Convert.Buffers
import FlatTable.Proofs.Convert.Reread

/-! Buffers that are built from drafts cannot be cut off: what is built first is the last in the buffer,
and the root leads to it. -/
namespace FlatTable
open Layout Build Builder

namespace Construction
variable {s : Schema} {x : Construction} {b' : Builder}

/-- A field that is not set again keeps its setting. -/
private theorem settings_of_setEach {fields : List (Nat × Draft)} {b : Builder} {a a' : TableArgs} {i : Nat}
    (ran : runFrom b (Draft.setEach s fields a) = (.ok a', b')) (other : i ∉ fields.map Prod.fst) :
    a'.settings[i]? = a.settings[i]? := by
  induction fields generalizing b a with
  | nil =>
    rw [Draft.setEach] at ran
    rw [(runFrom_pure_eq_ok_iff.mp ran).1]
  | cons e rest ih =>
    obtain ⟨j, d⟩ := e
    rw [List.map_cons, List.mem_cons, not_or] at other
    rw [Draft.setEach] at ran
    obtain ⟨set, b₁, _, ran⟩ := runFrom_bind_eq_ok_iff.mp ran
    rw [ih ran other.2]
    simp [TableArgs.set, Ne.symm other.1]

/-- A vector of references, created when nothing has been used or when one of its elements leads to what
is last. -/
private theorem createReferenceVector_ends {kind : ObjectKind} {e : ElementKind} {element : ElementType}
    {b : Builder} (sound : b.Sound) (reference : s.elementScalarType? element = none)
    {refs : List (Ref kind)} {r : Ref (.vector e)}
    (ran : runFrom b (createReferenceVector e kind (refs.map Ref.placed)) = (.ok r, b'))
    (ends : b.used.bytes = [] ∨ ∃ ref ∈ refs, b.Ends s element.asField ref.rev) :
    b'.Ends s (.vector element) r.rev := by
  obtain ⟨creates, laid, _, _, last⟩ := (createReferenceVector_does sound e kind _).of_ok ran
  rcases ends with empty | ⟨ref, member, below⟩
  · refine .references reference laid ?_
    rw [List.length_map]
    exact last empty
  · have below := below.kept creates.keeps
    have member : ref.rev ∈ (refs.map Ref.placed).map Placed.rev :=
      List.mem_map_of_mem (List.mem_map_of_mem member)
    cases element with
    | scalar t | enum id => cases below
    | string => exact .stringElement laid member below
    | table id => exact .tableElement laid member below

/-- Strings that are placed when nothing has been used. -/
private theorem strings_ends (firm : x.Firm s) (empty : x.builder.used.bytes = []) {texts : List String}
    {refs : List (Ref .string)}
    (ran : runFrom x.builder (texts.mapM createString) = (.ok refs, b')) :
    b'.used.bytes = [] ∨ ∃ ref ∈ refs, b'.Ends s .string ref.rev := by
  cases texts with
  | nil =>
    obtain ⟨rfl, rfl⟩ := runFrom_pure_eq_ok_iff.mp ran
    exact .inl empty
  | cons text texts =>
    rw [List.mapM_cons] at ran
    obtain ⟨r, b₁, created, ran⟩ := runFrom_bind_eq_ok_iff.mp ran
    obtain ⟨rest, b₂, created', ran⟩ := runFrom_bind_eq_ok_iff.mp ran
    obtain ⟨rfl, rfl⟩ := runFrom_pure_eq_ok_iff.mp ran
    obtain ⟨_, laid, _, last⟩ := (createString_does firm.builder text).of_ok created
    obtain ⟨h, continues, _⟩ := (firm.createString text).of_ok created
    obtain ⟨_, continues', _⟩ := (strings_builds continues.firm texts).of_ok created'
    have ends : b₁.Ends s .string r.rev := .string laid (last empty)
    exact .inr ⟨r, List.mem_cons_self, ends.kept continues'.follows.keeps⟩

mutual

/-- What a draft has placed first is what its setting leads to. -/
private theorem setting_ends (valid : s.Valid) (d : Draft) {x : Construction} (firm : x.Firm s)
    (empty : x.builder.used.bytes = []) (sound : d.Sound s) {type : FieldType}
    (hasType : d.HasType s type) {set : Setting} {b' : Builder}
    (ran : runFrom x.builder (d.setting s) = (.ok set, b')) :
    b'.used.bytes = [] ∨ ∃ p, set = .reference p ∧ b'.Ends s type p.rev := by
  match d with
  | .scalar v =>
    rw [Draft.setting] at ran
    obtain ⟨_, rfl⟩ := runFrom_pure_eq_ok_iff.mp ran
    exact .inl empty
  | .struct values =>
    rw [Draft.setting] at ran
    obtain ⟨_, rfl⟩ := runFrom_pure_eq_ok_iff.mp ran
    exact .inl empty
  | .string text =>
    rw [Draft.setting] at ran
    obtain ⟨r, b₁, created, ran⟩ := runFrom_bind_eq_ok_iff.mp ran
    obtain ⟨rfl, rfl⟩ := runFrom_pure_eq_ok_iff.mp ran
    obtain ⟨_, laid, _, last⟩ := (createString_does firm.builder text).of_ok created
    obtain rfl : type = .string := hasType
    exact .inr ⟨_, rfl, .string laid (last empty)⟩
  | .scalars t items =>
    rw [Draft.setting] at ran
    obtain ⟨r, b₁, created, ran⟩ := runFrom_bind_eq_ok_iff.mp ran
    obtain ⟨rfl, rfl⟩ := runFrom_pure_eq_ok_iff.mp ran
    obtain ⟨_, laid, _, last⟩ := (createVector_does firm.builder t items).of_ok created
    obtain ⟨e, rfl, scalar⟩ := hasType
    exact .inr ⟨_, rfl, .scalars scalar laid (last empty)⟩
  | .strings texts =>
    rw [Draft.setting] at ran
    obtain ⟨refs, b₁, placed, ran⟩ := runFrom_bind_eq_ok_iff.mp ran
    obtain ⟨r, b₂, created, ran⟩ := runFrom_bind_eq_ok_iff.mp ran
    obtain ⟨rfl, rfl⟩ := runFrom_pure_eq_ok_iff.mp ran
    obtain ⟨_, continues, _⟩ := (strings_builds firm texts).of_ok placed
    obtain rfl : type = .vector .string := hasType
    exact .inr ⟨_, rfl, createReferenceVector_ends continues.firm.builder rfl created
      (strings_ends firm empty placed)⟩
  | .table t =>
    rw [Draft.setting] at ran
    obtain ⟨r, b₁, built, ran⟩ := runFrom_bind_eq_ok_iff.mp ran
    obtain ⟨rfl, rfl⟩ := runFrom_pure_eq_ok_iff.mp ran
    cases sound with
    | table sound =>
      obtain rfl : type = .table t.id := hasType
      exact .inr ⟨_, rfl, build_ends valid t firm empty sound.settable built⟩
  | .tables items =>
    rw [Draft.setting] at ran
    obtain ⟨refs, b₁, placed, ran⟩ := runFrom_bind_eq_ok_iff.mp ran
    obtain ⟨r, b₂, created, ran⟩ := runFrom_bind_eq_ok_iff.mp ran
    obtain ⟨rfl, rfl⟩ := runFrom_pure_eq_ok_iff.mp ran
    cases sound with
    | tables each =>
      obtain ⟨_, continues, _⟩ := (buildEach_builds valid items firm each).of_ok placed
      obtain ⟨id, rfl, same⟩ := hasType
      exact .inr ⟨_, rfl, createReferenceVector_ends continues.firm.builder rfl created
        (buildEach_ends valid items firm empty each same placed)⟩

/-- A table that is built when nothing has been used leads to what is last. -/
theorem build_ends (valid : s.Valid) (t : TableDraft) {x : Construction} (firm : x.Firm s)
    (empty : x.builder.used.bytes = []) (settable : t.Settable s) {r : Ref .table} {b' : Builder}
    (ran : runFrom x.builder (t.build s) = (.ok r, b')) : b'.Ends s (.table t.id) r.rev := by
  match t with
  | .mk id fields =>
    cases settable with
    | mk known distinct typed each =>
      rw [TableDraft.build] at ran
      obtain ⟨a, b₁, placed, ran⟩ := runFrom_bind_eq_ok_iff.mp ran
      have blank := TableArgs.blank_holds x.history known
      obtain ⟨h, continues, holds⟩ :=
        (setEach_builds valid fields firm distinct typed each blank (by simp)).of_ok placed
      rw [List.nil_append] at holds
      have fits : a.Fits s := holds.fits (TableArgs.Typed.stored typed)
      have ends := setEach_ends valid fields firm empty distinct typed each blank (by simp) placed
      rw [← holds.table] at ends
      change b'.Ends s (.table id) r.rev
      rw [← holds.table]
      exact createTable_ends valid fits continues.firm.builder ends ran

/-- Of fields that are set when nothing has been used one leads to what is last, if any places
something. -/
private theorem setEach_ends (valid : s.Valid) (fields : List (Nat × Draft)) {x : Construction}
    (firm : x.Firm s) (empty : x.builder.used.bytes = []) {id : Nat}
    (distinct : (fields.map Prod.fst).Nodup) (typed : TableArgs.Typed s id fields)
    (each : ∀ e ∈ fields, e.2.Sound s) {done : List (Nat × Draft)} {a a' : TableArgs}
    (holds : a.Holds s x.history id done) (apart : ∀ e ∈ fields, e.1 ∉ done.map Prod.fst)
    {b' : Builder} (ran : runFrom x.builder (Draft.setEach s fields a) = (.ok a', b')) :
    b'.used.bytes = [] ∨ ∃ i f p, s.field? id i = some f ∧
      a'.settings[i]? = some (some (.reference p)) ∧ b'.Ends s f.type p.rev := by
  match fields with
  | [] =>
    rw [Draft.setEach] at ran
    obtain ⟨_, rfl⟩ := runFrom_pure_eq_ok_iff.mp ran
    exact .inl empty
  | (i, d) :: rest =>
    obtain ⟨⟨f, field, live, hasType⟩, typed⟩ := List.forall_mem_cons.mp typed
    obtain ⟨sound, each⟩ := List.forall_mem_cons.mp each
    obtain ⟨here, apart⟩ := List.forall_mem_cons.mp apart
    obtain ⟨new, distinct⟩ := List.nodup_cons.mp distinct
    rw [Draft.setEach] at ran
    obtain ⟨set, b₁, placed, ran⟩ := runFrom_bind_eq_ok_iff.mp ran
    obtain ⟨h, continues, made⟩ := (setting_builds valid d firm sound).of_ok placed
    have holds' := (holds.mono continues.history).set field made here
    rcases setting_ends valid d firm empty sound hasType placed with still | ⟨p, rfl, ends⟩
    · exact setEach_ends valid rest continues.firm still distinct typed each holds'
        (Draft.apart_of_set new apart) ran
    · obtain ⟨_, continues', _⟩ :=
        (setEach_builds valid rest continues.firm distinct typed each holds'
          (Draft.apart_of_set new apart)).of_ok ran
      refine .inr ⟨i, f, p, field, ?_, ends.kept continues'.follows.keeps⟩
      rw [settings_of_setEach ran new]
      obtain ⟨_, stored, _⟩ := holds'.made _ (List.mem_append_right _ List.mem_cons_self)
      have inside : i < a.settings.size := by
        simpa [TableArgs.set] using (Array.getElem?_eq_some_iff.mp stored).1
      simp [TableArgs.set, inside]

/-- Of tables that are built when nothing has been used one leads to what is last, if there are any. -/
private theorem buildEach_ends (valid : s.Valid) (items : List TableDraft) {x : Construction}
    (firm : x.Firm s) (empty : x.builder.used.bytes = []) (each : ∀ t ∈ items, t.Sound s) {id : Nat}
    (same : ∀ t ∈ items, t.id = id) {refs : List (Ref .table)} {b' : Builder}
    (ran : runFrom x.builder (TableDraft.buildEach s items) = (.ok refs, b')) :
    b'.used.bytes = [] ∨ ∃ ref ∈ refs, b'.Ends s (.table id) ref.rev := by
  match items with
  | [] =>
    rw [TableDraft.buildEach] at ran
    obtain ⟨_, rfl⟩ := runFrom_pure_eq_ok_iff.mp ran
    exact .inl empty
  | t :: rest =>
    obtain ⟨sound, each⟩ := List.forall_mem_cons.mp each
    rw [TableDraft.buildEach] at ran
    obtain ⟨r, b₁, built, ran⟩ := runFrom_bind_eq_ok_iff.mp ran
    obtain ⟨others, b₂, built', ran⟩ := runFrom_bind_eq_ok_iff.mp ran
    obtain ⟨rfl, rfl⟩ := runFrom_pure_eq_ok_iff.mp ran
    have ends := build_ends valid t firm empty sound.settable built
    obtain ⟨h, continues, _⟩ := (build_builds valid t firm sound.settable).of_ok built
    obtain ⟨_, continues', _⟩ := (buildEach_builds valid rest continues.firm each).of_ok built'
    rw [same t List.mem_cons_self] at ends
    exact .inr ⟨r, List.mem_cons_self, ends.kept continues'.follows.keeps⟩

end

end Construction

namespace TableDraft
variable {s : Schema} {t : TableDraft} {b : Buffer}

/-- From the root of a buffer that is built references touch its last byte. -/
theorem touches_of_buffer (valid : s.Valid) (settable : t.Settable s) (built : t.buffer s = .ok b) :
    ∃ position, b.target? 0 = some position ∧ b.Touches s (.table t.id) position b.size := by
  obtain ⟨r, b₁, f, b₂, ran, finished, rfl⟩ := buffer_eq_ok_iff.mp built
  have firm := Construction.start_firm s (.zeros 0 .standard)
  have ends := Construction.build_ends valid t firm rfl settable ran
  obtain ⟨h, continues, _⟩ := (Construction.build_builds valid t firm settable).of_ok ran
  obtain ⟨_, _, ⟨front, grown⟩, rooted, _⟩ :=
    (finish_does r none continues.firm.builder).of_ok finished
  obtain ⟨rfl, built, _, _⟩ := continues.firm.finish finished
  have leads := rooted.reference.target? built.sound
  rw [positionOf_length] at leads
  exact ⟨_, leads, (ends.kept grown.keeps).touches built.sound⟩

/-- No proper part of a buffer that is built is accepted. -/
theorem accepts_eq_false_of_short (valid : s.Valid) (settable : t.Settable s)
    (built : t.buffer s = .ok b) {v : Verifier} (schema : v.schema = s) (isRoot : v.root? = some t.id)
    {n : Nat} (short : n < b.size) : v.accepts (b.extract 0 n) = false := by
  subst schema
  obtain ⟨position, leads, touches⟩ := touches_of_buffer valid settable built
  have front : (b.extract 0 n).toList <+: b.toList := by
    simpa using List.take_prefix n b.toList
  exact Verifier.accepts_eq_false_of_cut front isRoot leads touches (by simpa using short)

end TableDraft
end FlatTable

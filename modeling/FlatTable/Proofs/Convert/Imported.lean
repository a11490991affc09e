import FlatTable.Proofs.Convert.Shown

/-! What building from JSON creates: tables that are rendered as the JSON's normal form. -/
namespace FlatTable
open Layout Build Builder

namespace Construction
variable {s : Schema} {x : Construction} {b' : Builder}

structure Importing (s : Schema) (x : Construction) : Prop where
  sound : x.Sound s
  typed : x.history.Typed s
  unforced : x.builder.forceDefaults = false
  omits : x.builder.OmitsDefaults x.history

theorem start_importing (s : Schema) (storage : Storage) : (start storage).Importing s where
  sound := start_sound s storage
  typed := by simp [start, History.Typed]
  unforced := rfl
  omits := by simp [start, OmitsDefaults]

/-- One more object. -/
private theorem Importing.create (importing : x.Importing s) {kind : ObjectKind}
    {steps : Build (Ref kind)} {content : Content} {r : Ref kind}
    (ran : runFrom x.builder steps = (.ok r, b')) (sound : (x.create steps content).Sound s)
    (creates : x.builder.Creates b' r.rev kind) (typed : content.Typed s x.history)
    (omits : ∀ a, content = .table a →
      ∃ start slots, b'.TableLaid r.rev a start slots ∧ Sparse a slots) :
    Importing s ⟨b', ⟨r.rev, content⟩ :: x.history⟩ := by
  have same : x.create steps content = ⟨b', ⟨r.rev, content⟩ :: x.history⟩ := by
    rw [Construction.create, ran]
  rw [same] at sound
  refine ⟨sound, importing.typed.cons sound.grounded typed, ?_, ?_⟩
  · obtain ⟨_, _, grown, _, _, rfl⟩ := creates
    exact grown.forceDefaults.trans importing.unforced
  · intro rev a known
    rcases List.mem_cons.mp known with here | before
    · obtain ⟨rfl, isTable⟩ := Creation.mk.inj here
      exact omits a isTable.symm
    · exact importing.omits.kept creates.keeps rev a before

theorem Importing.createString (importing : x.Importing s) (valid : s.Valid) {text : String}
    {r : Ref .string} (ran : runFrom x.builder (Builder.createString text) = (.ok r, b')) :
    Importing s ⟨b', ⟨r.rev, .string text⟩ :: x.history⟩ :=
  importing.create ran (step_sound valid importing.sound (.string text))
    ((createString_does importing.sound.builder text).of_ok ran).1 trivial (by simp)

theorem Importing.createVector (importing : x.Importing s) (valid : s.Valid) {t : ScalarType}
    {items : List Value} {r : Ref (.vector (.scalar t))}
    (ran : runFrom x.builder (Builder.createVector t items) = (.ok r, b')) :
    Importing s ⟨b', ⟨r.rev, .scalars t items⟩ :: x.history⟩ :=
  importing.create ran (step_sound valid importing.sound (.vector t items))
    ((createVector_does importing.sound.builder t items).of_ok ran).1 trivial (by simp)

theorem Importing.createStringVector (importing : x.Importing s) (valid : s.Valid)
    {items : List (Ref .string)} {r : Ref (.vector .string)}
    (ran : runFrom x.builder (Builder.createStringVector items) = (.ok r, b')) :
    Importing s ⟨b', ⟨r.rev, .strings items⟩ :: x.history⟩ :=
  importing.create ran (step_sound valid importing.sound (.strings items))
    ((createReferenceVector_does importing.sound.builder .string .string _).of_ok ran).1 trivial
    (by simp)

theorem Importing.createTableVector (importing : x.Importing s) (valid : s.Valid)
    {items : List (Ref .table)} {r : Ref (.vector .table)}
    (ran : runFrom x.builder (Builder.createTableVector items) = (.ok r, b')) :
    Importing s ⟨b', ⟨r.rev, .tables items⟩ :: x.history⟩ :=
  importing.create ran (step_sound valid importing.sound (.tables items))
    ((createReferenceVector_does importing.sound.builder .table .table _).of_ok ran).1 trivial
    (by simp)

theorem Importing.createTable (importing : x.Importing s) (valid : s.Valid) {a : TableArgs}
    (fits : a.Fits s) (typed : (Content.table a).Typed s x.history) {r : Ref .table}
    (ran : runFrom x.builder (Builder.createTable a) = (.ok r, b')) :
    Importing s ⟨b', ⟨r.rev, .table a⟩ :: x.history⟩ := by
  obtain ⟨creates, ⟨slots, laid, sparse, _⟩, _⟩ :=
    (createTable_does valid.filled fits importing.sound.builder).of_ok ran
  refine importing.create ran (createTable_sound valid importing.sound fits) creates typed ?_
  rintro _ ⟨⟩
  exact ⟨_, slots, laid, sparse importing.unforced⟩

end Construction

namespace Schema
variable {s : Schema} {f : FieldDef}

/-! ### Values -/

theorem scalarOfJson_eq_ok_iff {json : Json} {v : Value} :
    s.scalarOfJson f json = .ok v ↔ s.scalarOfJson? f.type json = some v := by
  unfold scalarOfJson
  cases s.scalarOfJson? f.type json <;> simp

/-- What is read as a scalar or an enum is neither an object nor an array. -/
theorem normal?_of_scalar {type : FieldType} {default : Option Value} {json : Json} {v : Value}
    (scalar : s.scalarOfJson? type json = some v) :
    s.normal? type default json = some (s.scalarJson (enumOf? type) (v.settle default)) := by
  obtain ⟨t, isScalar, value⟩ := Option.bind_eq_some_iff.mp scalar
  have item : s.normalItem? type default json =
      some (s.scalarJson (enumOf? type) (v.settle default)) := by
    unfold normalItem?
    split
    · cases isScalar
    · rw [scalar, Option.map_some]
  cases json with
  | object members | array items => cases value
  | null | bool b | integer i | real bits | string text => rw [normal?, item] <;> simp

theorem normal?_of_structOfJson {id : Nat} {default : Option Value} {json : Json}
    {values : List Value} (read : s.structOfJson f id json = .ok values) :
    ∃ d, s.structs[id]? = some d ∧ s.normal? (.struct id) default json = some (d.json s values) := by
  unfold structOfJson at read
  split at read
  · cases read
  · rename_i d members found
    split at read
    · cases read
    · rename_i unknown
      have known : (members.all fun m => (d.memberId? m.1).isSome) = true := by
        rw [List.all_eq_true]
        intro m member
        simpa [Option.isSome_iff_ne_none] using List.find?_eq_none.mp unknown m member
      refine ⟨d, found, ?_⟩
      rw [normal?, found, Option.bind_some, normalStruct?, if_pos known,
        mapM_eq_some_iff.mpr ((mapM_eq_ok_iff.mp read).imp fun m v given => ?_), Option.map_some]
      split at given
      · cases given
      · rename_i item
        rw [item, Option.bind_some]
        split at given
        · rename_i scalar
          cases given
          exact scalar
        · cases given
  · cases read

private theorem normalItems?_of_scalars {type : FieldType} {items : List Json}
    {values : List Value} (read : items.mapM (s.scalarOfJson? type) = some values) :
    s.normalItems? type items = some (values.map (s.scalarJson (enumOf? type))) := by
  induction items generalizing values with
  | nil =>
    cases read
    rfl
  | cons item items ih =>
    rw [List.mapM_cons] at read
    obtain ⟨v, first, read⟩ := Option.bind_eq_some_iff.mp read
    obtain ⟨rest, tail, read⟩ := Option.bind_eq_some_iff.mp read
    cases read
    rw [normalItems?, normal?_of_scalar first, ih tail]
    rfl

/-- The elements of a vector of scalars or enums. -/
theorem normalItems?_of_elementsOfJson {e : ElementType} {t : ScalarType} {items : List Json}
    {values : List Value} (scalar : s.elementScalarType? e = some t)
    (read : s.elementsOfJson f e t items = .ok values) :
    s.normalItems? e.asField items =
      some (values.map (s.scalarJson (enumOf? (.vector e)))) := by
  have values : items.mapM (s.scalarOfJson? e.asField) = some values := by
    refine mapM_eq_some_iff.mpr ((mapM_eq_ok_iff.mp read).imp fun item v given => ?_)
    split at given
    · rename_i value
      cases given
      cases e with
      | scalar t' =>
        obtain rfl : t' = t := Option.some.inj scalar
        exact value
      | enum id => exact value
      | string | table id => cases scalar
    · cases given
  rw [normalItems?_of_scalars values]
  cases e <;> rfl

theorem normalItems?_of_strings (texts : List String) :
    s.normalItems? .string (texts.map .string) = some (texts.map .string) := by
  induction texts with
  | nil => rfl
  | cons text texts ih =>
    rw [List.map_cons, normalItems?, ih, normal?] <;> simp [normalItem?]

end Schema

namespace Construction
variable {s : Schema} {x : Construction} {b' : Builder} {f : FieldDef}

/-! ### Strings, and vectors of anything but tables -/

/-- The run has gone on, and a field of this type that refers to the object is rendered as the normal
form of the JSON. -/
def Places (s : Schema) (x : Construction) (type : FieldType) (json : Json) (p : Placed)
    (b' : Builder) : Prop :=
  ∃ h json', x.history ⊆ h ∧ Importing s ⟨b', h⟩ ∧
    ∀ default, s.normal? type default json = some json' ∧
      (Setting.reference p).Shows s h default type json'

private theorem exists_strings (importing : x.Importing s) (valid : s.Valid) {items : List Json}
    {placed refs : List (Ref .string)}
    (ran : runFrom x.builder (placeStrings f items placed) = (.ok refs, b')) :
    ∃ h new texts, x.history ⊆ h ∧ Importing s ⟨b', h⟩ ∧ items = texts.map .string ∧
      refs = placed.reverse ++ new ∧ new.Forall₂ (fun r text => ⟨r.rev, .string text⟩ ∈ h) texts := by
  induction items generalizing x placed with
  | nil =>
    obtain ⟨rfl, rfl⟩ := runFrom_pure_eq_ok_iff.mp ran
    exact ⟨x.history, [], [], List.Subset.refl _, importing, rfl, (List.append_nil _).symm, .nil⟩
  | cons item items ih =>
    cases item with
    | string text =>
      obtain ⟨r, b₁, created, ran⟩ := runFrom_bind_eq_ok_iff.mp ran
      obtain ⟨h, new, texts, sub, importing', rfl, rfl, elements⟩ :=
        ih (importing.createString valid created) ran
      refine ⟨h, r :: new, text :: texts, List.Subset.trans (List.subset_cons_self _ _) sub,
        importing', rfl, by simp, .cons (sub List.mem_cons_self) elements⟩
    | null | bool b | integer i | real bits | array items | object members =>
      exact absurd ran not_runFrom_throw_eq_ok

theorem places_of_placeFlat (importing : x.Importing s) (valid : s.Valid) {json : Json} {p : Placed}
    (ran : runFrom x.builder (placeFlat s f json) = (.ok p, b')) :
    x.Places s f.type json p b' := by
  unfold placeFlat at ran
  split at ran
  · rename_i text isString
    obtain ⟨r, b₁, created, ran⟩ := runFrom_bind_eq_ok_iff.mp ran
    obtain ⟨rfl, rfl⟩ := runFrom_pure_eq_ok_iff.mp ran
    refine ⟨_, .string text, List.subset_cons_self _ _, importing.createString valid created,
      fun default => ?_⟩
    rw [isString]
    refine ⟨?_, .string List.mem_cons_self⟩
    rw [Schema.normal?] <;> simp [Schema.normalItem?]
  · exact absurd ran not_runFrom_throw_eq_ok
  · rename_i items isVector
    obtain ⟨refs, b₁, strings, ran⟩ := runFrom_bind_eq_ok_iff.mp ran
    obtain ⟨r, b₂, created, ran⟩ := runFrom_bind_eq_ok_iff.mp ran
    obtain ⟨rfl, rfl⟩ := runFrom_pure_eq_ok_iff.mp ran
    obtain ⟨h, new, texts, sub, importing', rfl, rfl, elements⟩ :=
      exists_strings importing valid strings
    refine ⟨_, .array (texts.map .string), List.Subset.trans sub (List.subset_cons_self _ _),
      importing'.createStringVector valid created, fun default => ?_⟩
    rw [isVector]
    refine ⟨?_, .strings List.mem_cons_self
      (elements.imp fun _ _ known => List.mem_cons_of_mem _ known)⟩
    rw [Schema.normal?, ElementType.asField, Schema.normalItems?_of_strings, Option.map_some]
  · rename_i e items _ isVector
    split at ran
    · exact absurd ran not_runFrom_throw_eq_ok
    · rename_i t scalar
      obtain ⟨values, b₁, lifted, ran⟩ := runFrom_bind_eq_ok_iff.mp ran
      obtain ⟨read, rfl⟩ := runFrom_lift_eq_ok_iff.mp lifted
      obtain ⟨r, b₂, created, ran⟩ := runFrom_bind_eq_ok_iff.mp ran
      obtain ⟨rfl, rfl⟩ := runFrom_pure_eq_ok_iff.mp ran
      refine ⟨_, .array (values.map (s.scalarJson (Schema.enumOf? (.vector e)))),
        List.subset_cons_self _ _, importing.createVector valid created, fun default => ?_⟩
      rw [isVector]
      refine ⟨?_, .scalars List.mem_cons_self⟩
      rw [Schema.normal?, Schema.normalItems?_of_elementsOfJson scalar read, Option.map_some]
  · exact absurd ran not_runFrom_throw_eq_ok
  · exact absurd ran not_runFrom_throw_eq_ok

/-! ### Members -/

/-- The run has gone on, and the field has been set to what is rendered as the normal form of the
JSON. -/
def Fills (s : Schema) (x : Construction) (a : TableArgs) (i : Nat) (f : FieldDef) (json : Json)
    (a' : TableArgs) (b' : Builder) : Prop :=
  ∃ h y json', x.history ⊆ h ∧ Importing s ⟨b', h⟩ ∧ a.Sets i y a' ∧
    s.normal? f.type (s.fieldDefault? a.table i) json = some json' ∧
      y.Shows s h (s.fieldDefault? a.table i) f.type json'

section
variable {a a' : TableArgs} {i : Nat} {json : Json} {p : Placed} {b₁ : Builder}

private theorem fills_of_setReference (places : x.Places s f.type json p b₁)
    (ran : runFrom b₁ (liftM (a.setReference i p)) = (.ok a', b')) :
    x.Fills s a i f json a' b' := by
  obtain ⟨set, rfl⟩ := runFrom_lift_eq_ok_iff.mp ran
  obtain ⟨h, json', sub, importing, shows⟩ := places
  obtain ⟨normal, shows⟩ := shows (s.fieldDefault? a.table i)
  exact ⟨h, _, json', sub, importing, TableArgs.sets_of_setReference set, normal, shows⟩

private theorem fills_of_setScalar (importing : x.Importing s)
    (ran : runFrom x.builder (liftM (s.scalarOfJson f json) >>= fun v => liftM (a.setScalar i v)) =
      (.ok a', b')) : x.Fills s a i f json a' b' := by
  obtain ⟨v, _, lifted, ran⟩ := runFrom_bind_eq_ok_iff.mp ran
  obtain ⟨read, rfl⟩ := runFrom_lift_eq_ok_iff.mp lifted
  obtain ⟨set, rfl⟩ := runFrom_lift_eq_ok_iff.mp ran
  exact ⟨x.history, _, _, List.Subset.refl _, importing, TableArgs.sets_of_setScalar set,
    Schema.normal?_of_scalar (Schema.scalarOfJson_eq_ok_iff.mp read), .scalar⟩

/-- What setting a member does that is not null, its tables being built as they should be. -/
private theorem fills_of_setMember (importing : x.Importing s) (valid : s.Valid) {t : TableDef}
    (found : t.fields[i]? = some f) (given : json.isNull = false)
    {table : Nat → Build (Ref .table)} {tables : FieldDef → Nat → Build (Ref (.vector .table))}
    (placesTable : ∀ id r b', runFrom x.builder (table id) = (.ok r, b') →
      x.Places s (.table id) json r.placed b')
    (placesTables : ∀ f id r b', runFrom x.builder (tables f id) = (.ok r, b') →
      x.Places s (.vector (.table id)) json r.placed b')
    (ran : runFrom x.builder (setMember s t i json table tables a) = (.ok a', b')) :
    f.deprecated = false ∧ x.Fills s a i f json a' b' := by
  unfold setMember at ran
  split at ran
  · cases given
  · exact absurd ran not_runFrom_throw_eq_ok
  · rename_i g _ found'
    obtain rfl : f = g := Option.some.inj (found.symm.trans found')
    split at ran
    all_goals
      replace ran := runFrom_refuse_eq_ok_iff.mp ran
      refine ⟨by simpa using ran.1, ?_⟩
      replace ran := ran.2
    · exact fills_of_setScalar importing ran
    · exact fills_of_setScalar importing ran
    · rename_i struct isStruct
      obtain ⟨values, _, lifted, ran⟩ := runFrom_bind_eq_ok_iff.mp ran
      obtain ⟨read, rfl⟩ := runFrom_lift_eq_ok_iff.mp lifted
      obtain ⟨set, rfl⟩ := runFrom_lift_eq_ok_iff.mp ran
      obtain ⟨d, known, normal⟩ := Schema.normal?_of_structOfJson read
      refine ⟨x.history, _, d.json s values, List.Subset.refl _, importing,
        TableArgs.sets_of_setStruct set, ?_⟩
      rw [isStruct]
      exact ⟨normal, .struct known⟩
    · rename_i nested isTable
      obtain ⟨r, b₁, built, ran⟩ := runFrom_bind_eq_ok_iff.mp ran
      exact fills_of_setReference (isTable ▸ placesTable nested r b₁ built) ran
    · rename_i nested isVector
      obtain ⟨r, b₁, built, ran⟩ := runFrom_bind_eq_ok_iff.mp ran
      exact fills_of_setReference (isVector ▸ placesTables f nested r b₁ built) ran
    · obtain ⟨p, b₁, placed, ran⟩ := runFrom_bind_eq_ok_iff.mp ran
      exact fills_of_setReference (places_of_placeFlat importing valid placed) ran

end

/-! ### Tables -/

private theorem fieldNamed?_eq {a : TableArgs} {t : TableDef} {key : String} {i : Nat}
    (known : s.tables[a.table]? = some t) (named : t.fieldId? key = some i) :
    ∃ f, t.fields[i]? = some f ∧ f.name = key ∧ s.fieldNamed? a.table key = some (i, f) := by
  obtain ⟨f, found, name⟩ := TableDef.exists_field named
  exact ⟨f, found, name, by simp [Schema.fieldNamed?, known, named, found]⟩

mutual

theorem places_of_buildTable (valid : s.Valid) (json : Json) {x : Construction} {b' : Builder}
    (importing : x.Importing s) {id : Nat} {r : Ref .table}
    (ran : runFrom x.builder (buildTable s id json) = (.ok r, b')) :
    x.Places s (.table id) json r.placed b' := by
  match json with
  | .object members =>
    rw [buildTable] at ran
    split at ran
    · exact absurd ran not_runFrom_throw_eq_ok
    · rename_i t known
      obtain ⟨a, _, lifted, ran⟩ := runFrom_bind_eq_ok_iff.mp ran
      obtain ⟨new, rfl⟩ := runFrom_lift_eq_ok_iff.mp lifted
      obtain ⟨a', b₁, set, created⟩ := runFrom_bind_eq_ok_iff.mp ran
      obtain ⟨fits, rfl⟩ := TableArgs.new_fits new
      obtain ⟨h, given, sub, importing', fits', table, normal, shows⟩ :=
        shows_of_setMembers valid members importing fits known (.of_new new) set
      refine ⟨⟨r.rev, .table a'⟩ :: h, s.normalTable a.table given,
        List.Subset.trans sub (List.subset_cons_self _ _),
        importing'.createTable valid fits' (shows.typed importing'.sound.grounded) created,
        fun default => ⟨?_, .table ?_⟩⟩
      · rw [Schema.normal?, normal, Option.map_some]
      · rw [← table]
        exact (shows.mono (List.subset_cons_self _ _)).table valid List.mem_cons_self
  | .null | .bool _ | .integer _ | .real _ | .string _ | .array _ =>
    rw [buildTable] at ran
    · split at ran
      · exact absurd ran not_runFrom_throw_eq_ok
      · exact absurd ran not_runFrom_throw_eq_ok
    · simp

theorem shows_of_setMembers (valid : s.Valid) (members : List (String × Json)) {x : Construction}
    {b' : Builder} (importing : x.Importing s) {t : TableDef} {a a' : TableArgs}
    {given : List (String × Json)} (fits : a.Fits s) (known : s.tables[a.table]? = some t)
    (shows : a.Shows s x.history given)
    (ran : runFrom x.builder (setMembers s t members a) = (.ok a', b')) :
    ∃ h given', x.history ⊆ h ∧ Importing s ⟨b', h⟩ ∧ a'.Fits s ∧ a'.table = a.table ∧
      s.normalMembers? a.table members given = some given' ∧ a'.Shows s h given' := by
  match members with
  | [] =>
    rw [setMembers] at ran
    obtain ⟨rfl, rfl⟩ := runFrom_pure_eq_ok_iff.mp ran
    exact ⟨x.history, given, List.Subset.refl _, importing, fits, rfl,
      by rw [Schema.normalMembers?], shows⟩
  | (key, json) :: rest =>
    rw [setMembers] at ran
    split at ran
    · exact absurd ran not_runFrom_throw_eq_ok
    · rename_i i named
      obtain ⟨f, found, rfl, named⟩ := fieldNamed?_eq known named
      obtain ⟨a₁, b₁, set, ran⟩ := runFrom_bind_eq_ok_iff.mp ran
      cases isNull : json.isNull with
      | true =>
        obtain rfl := Json.eq_null isNull
        obtain ⟨rfl, rfl⟩ := runFrom_pure_eq_ok_iff.mp set
        obtain ⟨h, given', sub, importing', fits', table, normal, shows'⟩ :=
          shows_of_setMembers valid rest importing fits known shows ran
        exact ⟨h, given', sub, importing', fits', table,
          (Schema.normalMembers?_cons_null named).trans normal, shows'⟩
      | false =>
        have placesTable (id : Nat) (r : Ref .table) (b' : Builder)
            (ran : runFrom x.builder (buildTable s id json) = (.ok r, b')) :=
          places_of_buildTable valid json importing ran
        have placesTables (f : FieldDef) (id : Nat) (r : Ref (.vector .table)) (b' : Builder)
            (ran : runFrom x.builder (buildTableVector s f id json) = (.ok r, b')) :=
          places_of_buildTableVector valid json importing ran
        obtain ⟨live, h, y, json', sub, importing₁, sets, normal, here⟩ :=
          fills_of_setMember importing valid found isNull placesTable placesTables set
        have field : s.field? a.table i = some f := by
          rw [Schema.field?, known, Option.bind_some, found]
        obtain ⟨h', given', sub', importing', fits', table, rest', shows'⟩ :=
          shows_of_setMembers valid rest importing₁ (fits.sets sets) (sets.table ▸ known)
            ((shows.mono sub).cons valid fits field sets here) ran
        rw [sets.table] at table rest'
        exact ⟨h', given', List.Subset.trans sub sub', importing', fits', table,
          (Schema.normalMembers?_cons named isNull live normal).trans rest', shows'⟩

theorem places_of_buildTableVector (valid : s.Valid) (json : Json) {x : Construction}
    {b' : Builder} (importing : x.Importing s) {f : FieldDef} {id : Nat} {r : Ref (.vector .table)}
    (ran : runFrom x.builder (buildTableVector s f id json) = (.ok r, b')) :
    x.Places s (.vector (.table id)) json r.placed b' := by
  match json with
  | .array items =>
    rw [buildTableVector] at ran
    obtain ⟨refs, b₁, built, created⟩ := runFrom_bind_eq_ok_iff.mp ran
    obtain ⟨h, new, jsons, sub, importing', rfl, normal, elements⟩ :=
      shows_of_buildTables valid items importing built
    refine ⟨_, .array jsons, List.Subset.trans sub (List.subset_cons_self _ _),
      importing'.createTableVector valid created, fun default => ⟨?_, .tables List.mem_cons_self
        (elements.imp fun _ _ shows => shows.mono (List.subset_cons_self _ _))⟩⟩
    rw [Schema.normal?, ElementType.asField, normal, Option.map_some]
  | .null | .bool _ | .integer _ | .real _ | .string _ | .object _ =>
    rw [buildTableVector] at ran
    · exact absurd ran not_runFrom_throw_eq_ok
    · simp

theorem shows_of_buildTables (valid : s.Valid) (items : List Json) {x : Construction}
    {b' : Builder} (importing : x.Importing s) {id : Nat} {built refs : List (Ref .table)}
    (ran : runFrom x.builder (buildTables s id items built) = (.ok refs, b')) :
    ∃ h new jsons, x.history ⊆ h ∧ Importing s ⟨b', h⟩ ∧ refs = built.reverse ++ new ∧
      s.normalItems? (.table id) items = some jsons ∧
        new.Forall₂ (fun r json => h.Shows s r.rev id json) jsons := by
  match items with
  | [] =>
    rw [buildTables] at ran
    obtain ⟨rfl, rfl⟩ := runFrom_pure_eq_ok_iff.mp ran
    exact ⟨x.history, [], [], List.Subset.refl _, importing, (List.append_nil _).symm,
      by rw [Schema.normalItems?], .nil⟩
  | json :: rest =>
    rw [buildTables] at ran
    obtain ⟨r, b₁, table, ran⟩ := runFrom_bind_eq_ok_iff.mp ran
    obtain ⟨h, json', sub, importing₁, shows⟩ := places_of_buildTable valid json importing table
    obtain ⟨normal, shows⟩ := shows none
    obtain ⟨h', new, jsons, sub', importing', rfl, rest', elements⟩ :=
      shows_of_buildTables valid rest importing₁ ran
    cases shows with
    | table nested =>
      refine ⟨h', r :: new, json' :: jsons, List.Subset.trans sub sub', importing', by simp, ?_,
        .cons (nested.mono sub') elements⟩
      rw [Schema.normalItems?, normal, rest']

end

end Construction
end FlatTable

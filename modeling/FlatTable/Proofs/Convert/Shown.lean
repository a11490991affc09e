import FlatTable.Proofs.Builder.ReadsBack
import FlatTable.Proofs.Convert.Normal

/-! What the tables of a finished buffer are rendered as, by what they were created with. Defaults must
not have been forced: a zero that is stored keeps its sign. -/
namespace FlatTable
open Layout Build

namespace Builder
variable {s : Schema} {h : History} {b b' : Builder}

/-- No table stores what it would read as its default anyway. -/
def OmitsDefaults (b : Builder) (h : History) : Prop :=
  ∀ rev a, ⟨rev, .table a⟩ ∈ h → ∃ start slots, b.TableLaid rev a start slots ∧ Sparse a slots

theorem OmitsDefaults.kept (omits : b.OmitsDefaults h) (keeps : b.Keeps b') :
    b'.OmitsDefaults h := by
  intro rev a known
  obtain ⟨start, slots, laid, sparse⟩ := omits rev a known
  exact ⟨start, slots, laid.kept keeps, sparse⟩

/-- A scalar reads as it was set, or as a default that is equal. -/
theorem Built.field_of_scalar (built : b.Built s h) (omits : b.OmitsDefaults h) (valid : s.Valid)
    {rev i : Nat} {a : TableArgs} {f : FieldDef} {v : Value} (known : ⟨rev, .table a⟩ ∈ h)
    (field : s.field? a.table i = some f) (live : f.deprecated = false)
    (set : a.settings[i]? = some (some (.scalar v))) :
    TableView.field ⟨b.finished.data, b.positionOf rev⟩ s a.table i =
      .scalar (v.settle (s.fieldDefault? a.table i)) := by
  have schema : a.schema = s := (built.fits _ known a rfl).schema
  have reads := built.readsBack field live valid known
  cases default : s.fieldDefault? a.table i with
  | none =>
    generalize TableView.field _ s a.table i = value at reads
    cases reads <;> simp_all [Value.settle]
  | some d =>
    by_cases same : d.numEq v
    · obtain ⟨start, slots, laid, sparse⟩ := omits rev a known
      have omitted : Omitted a i (.scalar v) := ⟨v, rfl, by simp [isDefault, schema, default, same]⟩
      have place := laid.fieldPosition?_of_zero (sparse i _ set omitted)
      rw [TableView.field_of_missing (t := ⟨b.finished.data, b.positionOf rev⟩) valid field live
        place, default]
      simp [Value.settle, same]
    · generalize TableView.field _ s a.table i = value at reads
      cases reads <;> simp_all [Value.settle]

end Builder

/-- In every buffer that is finished with these objects there is a table here that is rendered as
this. -/
structure History.Shows (s : Schema) (h : History) (rev id : Nat) (json : Json) : Prop where
  created : ∃ a, ⟨rev, .table a⟩ ∈ h ∧ a.table = id
  rendered : ∀ (b : Builder) h', h ⊆ h' → b.Built s h' → b.OmitsDefaults h' →
    s.tableJson ⟨b.finished.data, b.positionOf rev⟩ id = json

inductive Setting.Shows (s : Schema) (h : History) (default : Option Value) :
    FieldType → Setting → Json → Prop where
  | scalar {type : FieldType} {v : Value} :
      Shows s h default type (.scalar v) (s.scalarJson (Schema.enumOf? type) (v.settle default))
  | struct {id : Nat} {d : StructDef} {values : List Value} (known : s.structs[id]? = some d) :
      Shows s h default (.struct id) (.struct values) (d.json s values)
  | string {p : Placed} {text : String} (object : ⟨p.rev, .string text⟩ ∈ h) :
      Shows s h default .string (.reference p) (.string text)
  | scalars {p : Placed} {e : ElementType} {t : ScalarType} {items : List Value}
      (object : ⟨p.rev, .scalars t items⟩ ∈ h) :
      Shows s h default (.vector e) (.reference p)
        (.array (items.map (s.scalarJson (Schema.enumOf? (.vector e)))))
  | strings {p : Placed} {items : List (Ref .string)} {texts : List String}
      (object : ⟨p.rev, .strings items⟩ ∈ h)
      (elements : items.Forall₂ (fun r text => ⟨r.rev, .string text⟩ ∈ h) texts) :
      Shows s h default (.vector .string) (.reference p) (.array (texts.map .string))
  | table {p : Placed} {id : Nat} {json : Json} (nested : h.Shows s p.rev id json) :
      Shows s h default (.table id) (.reference p) json
  | tables {p : Placed} {id : Nat} {items : List (Ref .table)} {jsons : List Json}
      (object : ⟨p.rev, .tables items⟩ ∈ h)
      (elements : items.Forall₂ (fun r json => h.Shows s r.rev id json) jsons) :
      Shows s h default (.vector (.table id)) (.reference p) (.array jsons)

def TableArgs.Shows (s : Schema) (h : History) (a : TableArgs) (given : List (String × Json)) :
    Prop :=
  ∀ i f, s.field? a.table i = some f →
    match Json.member? f.name given with
    | some json => ∃ x, a.settings[i]? = some (some x) ∧
        x.Shows s h (s.fieldDefault? a.table i) f.type json
    | none => ∀ x, a.settings[i]? ≠ some (some x)

section
variable {s : Schema} {h h' : History} {default : Option Value} {type : FieldType} {x : Setting}
  {json : Json}

theorem History.Shows.mono {rev id : Nat} (shows : h.Shows s rev id json) (sub : h ⊆ h') :
    h'.Shows s rev id json := by
  obtain ⟨⟨a, known, table⟩, rendered⟩ := shows
  exact ⟨⟨a, sub known, table⟩, fun b h'' sub' => rendered b h'' (List.Subset.trans sub sub')⟩

theorem Setting.Shows.mono (shows : x.Shows s h default type json) (sub : h ⊆ h') :
    x.Shows s h' default type json := by
  cases shows with
  | scalar => exact .scalar
  | struct known => exact .struct known
  | string object => exact .string (sub object)
  | scalars object => exact .scalars (sub object)
  | strings object elements =>
    exact .strings (sub object) (elements.imp fun _ _ known => sub known)
  | table nested => exact .table (nested.mono sub)
  | tables object elements =>
    exact .tables (sub object) (elements.imp fun _ _ nested => nested.mono sub)

theorem TableArgs.Shows.mono {a : TableArgs} {given : List (String × Json)}
    (shows : a.Shows s h given) (sub : h ⊆ h') : a.Shows s h' given := by
  intro i f field
  have here := shows i f field
  split at here
  · obtain ⟨x, set, shows⟩ := here
    exact ⟨x, set, shows.mono sub⟩
  · exact here

/-- The tables that a setting refers to are what its field is declared for. -/
theorem Setting.Shows.typed (shows : x.Shows s h default type json) (grounded : h.Grounded)
    {id r : Nat} (tables : type.tables? = some id) (found : r ∈ h.tablesOf (some x)) :
    h.tableAt? r = some id := by
  have content {rev : Nat} {c : Content} (known : ⟨rev, c⟩ ∈ h) : h.content? rev = some c :=
    grounded.content?_eq_some_iff.mpr known
  cases shows with
  | scalar | struct known => cases found
  | string object | strings object elements => cases tables
  | scalars object =>
    rw [History.tablesOf, content object] at found
    cases found
  | table nested =>
    obtain ⟨a, known, table⟩ := nested.created
    obtain rfl := Option.some.inj tables
    rw [History.tablesOf, content known] at found
    obtain rfl := List.mem_singleton.mp found
    exact grounded.tableAt?_eq_some_iff.mpr ⟨a, known, table⟩
  | tables object elements =>
    obtain rfl := Option.some.inj tables
    rw [History.tablesOf, content object] at found
    obtain ⟨item, member, rfl⟩ := List.mem_map.mp found
    obtain ⟨i, rfl⟩ := List.mem_iff_get.mp member
    have nested := elements.get i.isLt (elements.length_eq ▸ i.isLt)
    exact grounded.tableAt?_eq_some_iff.mpr nested.created

/-- Arguments that stand for JSON refer to tables as their schema does. -/
theorem TableArgs.Shows.typed {s : Schema} {h : History} {a : TableArgs}
    {given : List (String × Json)} (shows : a.Shows s h given) (grounded : h.Grounded) :
    (Content.table a).Typed s h := by
  intro i _ f field id tables r found
  have here := shows i f field
  cases set : a.settings[i]?.join with
  | none =>
    rw [set] at found
    cases found
  | some x =>
    have set := Option.join_eq_some_iff.mp set
    split at here
    · obtain ⟨y, set', shows⟩ := here
      obtain rfl : x = y := by simpa [set] using set'
      rw [set] at found
      exact shows.typed grounded tables found
    · exact absurd set (here x)

theorem TableArgs.Shows.of_new {a : TableArgs} {id : Nat} (new : TableArgs.new s id = .ok a) :
    a.Shows s h [] := by
  unfold TableArgs.new at new
  split at new
  · cases new
    intro i f field x set
    simp [Array.getElem?_replicate] at set
  · cases new

/-- One more member. -/
theorem TableArgs.Shows.cons {a a' : TableArgs} {given : List (String × Json)} {i : Nat}
    {f : FieldDef} (shows : a.Shows s h given) (valid : s.Valid) (fits : a.Fits s)
    (field : s.field? a.table i = some f) (sets : a.Sets i x a')
    (here : x.Shows s h (s.fieldDefault? a.table i) f.type json) :
    a'.Shows s h ((f.name, json) :: given) := by
  obtain ⟨t, table, size⟩ := fits.table
  have inside : i < a.settings.size := by
    rw [Schema.field?, table, Option.bind_some] at field
    rw [size]
    exact (Array.getElem?_eq_some_iff.mp field).1
  obtain ⟨_, _, _, _, rfl⟩ := sets
  intro j g field'
  by_cases same : i = j
  · subst same
    obtain rfl : f = g := Option.some.inj (field.symm.trans field')
    rw [Json.member?_cons_self]
    exact ⟨x, by simp [inside], here⟩
  · have other : f.name ≠ g.name := fun named => same (valid.number_unique field field' named)
    rw [Json.member?_cons_of_ne other]
    simp only [Array.getElem?_setIfInBounds, if_neg same]
    exact shows j g field'

end

/-! ### Rendering -/

theorem map_eq_map_of_forall₂ {α β γ : Type} {R : α → β → Prop} {f : α → γ} {g : β → γ}
    {l : List α} {l' : List β} (related : l.Forall₂ R l') (same : ∀ a b, R a b → f a = g b) :
    l.map f = l'.map g := by
  induction related with
  | nil => rfl
  | cons first _ ih => rw [List.map_cons, List.map_cons, same _ _ first, ih]

/-- Pairs of what is numbered and of what is read at the number. -/
private theorem filterMap_zipIdx_eq_map_zip {α β γ : Type} {read : Nat → Option β} {g : α → β → γ}
    {l : List α} {m : List β} {n : Nat} (reads : ∀ i, read (n + i) = m[i]?) :
    ((l.zipIdx n).filterMap fun p => (read p.2).map (g p.1)) =
      (l.zip m).map fun p => g p.1 p.2 := by
  induction l generalizing m n with
  | nil => rfl
  | cons a l ih =>
    have first : read n = m[0]? := reads 0
    have rest (i : Nat) : read (n + 1 + i) = m[i + 1]? := by
      rw [← reads, Nat.add_assoc, Nat.add_comm 1]
    cases m with
    | nil =>
      rw [List.zipIdx_cons, List.filterMap_cons_none (by simp [first]), ih (m := []) (by simpa)]
      simp
    | cons b m =>
      rw [List.zipIdx_cons, List.filterMap_cons_some (b := g a b) (by simp [first]),
        ih (m := m) rest]
      rfl

/-- A struct is rendered with the values that were set. -/
theorem Schema.structJson_eq {s : Schema} {d : StructDef} {values : List Value}
    {view : StructView} (known : s.structs[view.id]? = some d)
    (members : ∀ j, view.member? s j = values[j]?) : s.structJson view = d.json s values := by
  simp only [Schema.structJson, known, StructDef.json]
  exact congrArg Json.ofMembers (filterMap_zipIdx_eq_map_zip
    (g := fun (m : Member) value => (m.name, s.scalarJson none value))
    fun i => by rw [Nat.zero_add, members])

section
variable {s : Schema} {h h' : History} {b : Builder} {x : Setting} {json : Json} {rev i : Nat}
  {a : TableArgs} {f : FieldDef}

/-- A field is rendered as what it was set to. -/
theorem Setting.Shows.rendered (shows : x.Shows s h (s.fieldDefault? a.table i) f.type json)
    (sub : h ⊆ h') (built : b.Built s h') (omits : b.OmitsDefaults h') (valid : s.Valid)
    (known : ⟨rev, .table a⟩ ∈ h') (field : s.field? a.table i = some f)
    (live : f.deprecated = false) (set : a.settings[i]? = some (some x)) :
    TableView.field ⟨b.finished.data, b.positionOf rev⟩ s a.table i ≠ .absent ∧
      s.valueJson s.tableJson (Schema.enumOf? f.type)
        (TableView.field ⟨b.finished.data, b.positionOf rev⟩ s a.table i) = json := by
  have schema : a.schema = s := (built.fits _ known a rfl).schema
  have content {rev : Nat} {c : Content} (object : ⟨rev, c⟩ ∈ h) : h'.content? rev = some c :=
    built.grounded.content?_eq_some_iff.mpr (sub object)
  have reads := built.readsBack field live valid known
  have isStruct (view : StructView)
      (read : TableView.field ⟨b.finished.data, b.positionOf rev⟩ s a.table i = .struct view) :
      f.type = .struct view.id := by
    obtain ⟨f', _, _, _, found, _, type, _, _, rfl⟩ := TableView.exists_struct read
    obtain rfl : f = f' := Option.some.inj (field.symm.trans found)
    exact type
  have scalar (v : Value) (same : x = .scalar v) :=
    built.field_of_scalar omits valid known field live (same ▸ set)
  generalize TableView.field _ s a.table i = value at reads isStruct scalar
  generalize f.type = type at shows reads isStruct
  cases shows with
  | scalar =>
    rw [scalar _ rfl]
    exact ⟨by simp, rfl⟩
  | struct struct =>
    obtain ⟨view, rfl, members⟩ := reads.exists_view set
    obtain rfl := FieldType.struct.inj (isStruct view rfl)
    exact ⟨by simp, Schema.structJson_eq struct (schema ▸ members)⟩
  | string object =>
    obtain rfl := reads.of_object set (content object)
    exact ⟨by simp, rfl⟩
  | scalars object =>
    obtain ⟨v, rfl, -, items⟩ := reads.of_object set (content object)
    refine ⟨by simp, ?_⟩
    rw [Schema.valueJson, items, List.map_map]
    rfl
  | @strings _ _ texts object elements =>
    obtain ⟨v, rfl, -, items⟩ := reads.of_object set (content object)
    have read : v.items = texts.map .string := by
      apply List.map_injective_iff.mpr (Option.some_injective _)
      rw [items, List.map_map]
      exact map_eq_map_of_forall₂ elements fun r text known => by
        rw [History.text?, content known, Option.map_some, Function.comp_apply]
    refine ⟨by simp, ?_⟩
    rw [Schema.valueJson, read, List.map_map]
    rfl
  | table nested =>
    obtain ⟨a', object, _⟩ := nested.created
    obtain ⟨id, declared, rfl⟩ := reads.of_object set (content object)
    obtain rfl := FieldType.table.inj declared
    exact ⟨by simp, nested.rendered b h' sub built omits⟩
  | tables object elements =>
    obtain ⟨v, id, rfl, declared, -, items⟩ := reads.of_object set (content object)
    obtain rfl := ElementType.table.inj (FieldType.vector.inj declared)
    refine ⟨by simp, ?_⟩
    rw [Schema.valueJson, items, List.map_map]
    refine congrArg Json.array ((map_eq_map_of_forall₂ (g := fun json => json) elements ?_).trans
      (List.map_id' _))
    exact fun r json nested => nested.rendered b h' sub built omits

/-- A field that was not set is rendered as its default, if it has one. -/
private theorem rendered_of_unset (built : b.Built s h) (valid : s.Valid)
    (known : ⟨rev, .table a⟩ ∈ h) (field : s.field? a.table i = some f)
    (live : f.deprecated = false) (unset : ∀ x, a.settings[i]? ≠ some (some x)) :
    TableView.field ⟨b.finished.data, b.positionOf rev⟩ s a.table i =
      ((s.fieldDefault? a.table i).map .scalar).getD .absent := by
  obtain ⟨start, slots, laid⟩ : ∃ start slots, b.TableLaid rev a start slots := built.laid _ known
  exact TableView.field_of_missing valid field live (laid.fieldPosition?_of_unset unset)

/-- A table is rendered with the members that its arguments stand for. -/
theorem TableArgs.Shows.table {given : List (String × Json)} (shows : a.Shows s h given)
    (valid : s.Valid) (known : ⟨rev, .table a⟩ ∈ h) :
    h.Shows s rev a.table (s.normalTable a.table given) := by
  refine ⟨⟨a, known, rfl⟩, fun b h' sub built omits => ?_⟩
  rw [Schema.tableJson_eq, Schema.normalTable]
  obtain ⟨d, found, _⟩ := (built.fits _ (sub known) a rfl).table
  rw [found, Schema.membersJson_eq found]
  refine congrArg Json.ofMembers (List.filterMap_congr ?_)
  intro entry member
  obtain ⟨f, i⟩ := entry
  have field := (Schema.mem_zipIdx_fields found).mp member
  rw [Schema.normalMember?]
  dsimp only
  split
  · rename_i deprecated
    have absent : TableView.field ⟨b.finished.data, b.positionOf rev⟩ s a.table i = .absent := by
      simp only [TableView.field, field, deprecated, if_true]
    rw [Schema.memberJson?, absent]
  · rename_i live
    rw [Bool.not_eq_true] at live
    have here := shows i f field
    cases member : Json.member? f.name given with
    | some json =>
      rw [member] at here
      obtain ⟨x, set, shows⟩ := here
      obtain ⟨present, rendered⟩ := shows.rendered sub built omits valid (sub known) field live set
      exact Schema.memberJson?_eq_some_iff.mpr ⟨present, by dsimp only; rw [rendered]⟩
    | none =>
      rw [member] at here
      rw [Schema.memberJson?, rendered_of_unset built valid (sub known) field live here]
      cases s.fieldDefault? a.table i <;> rfl

end
end FlatTable

import FlatTable.Proofs.Builder.ReadsBack

/-! Of the arguments of a table those that are stored: all that are set if defaults are forced, and else
all but the scalars that are the default. A table that is created with the ones is created with the
others. -/
namespace FlatTable
open Layout Build

namespace TableArgs

def set (a : TableArgs) (i : Nat) (x : Setting) : TableArgs :=
  { a with settings := a.settings.setIfInBounds i (some x) }

def omits (s : Schema) (id i : Nat) : Setting → Bool
  | .scalar v => Builder.isDefault s id i v
  | _ => false

def keep (s : Schema) (id i : Nat) (x : Option Setting) : Option Setting :=
  x.filter fun x => !omits s id i x

def sparse (a : TableArgs) : TableArgs :=
  { a with settings := a.settings.mapIdx (keep a.schema a.table) }

def stored (a : TableArgs) (forced : Bool) : TableArgs := if forced then a else a.sparse

section
variable {s : Schema} {a a' : TableArgs} {i : Nat} {x : Setting}

theorem omits_iff : omits a.schema a.table i x ↔ Builder.Omitted a i x := by
  cases x <;> simp [omits, Builder.Omitted]

@[simp] theorem sparse_schema (a : TableArgs) : a.sparse.schema = a.schema := rfl

@[simp] theorem sparse_table (a : TableArgs) : a.sparse.table = a.table := rfl

@[simp] theorem stored_schema (a : TableArgs) (forced : Bool) :
    (a.stored forced).schema = a.schema := by
  cases forced <;> rfl

@[simp] theorem stored_table (a : TableArgs) (forced : Bool) :
    (a.stored forced).table = a.table := by
  cases forced <;> rfl

theorem getElem?_sparse (a : TableArgs) (i : Nat) :
    a.sparse.settings[i]? = a.settings[i]?.map (keep a.schema a.table i) := by
  rw [sparse, Array.getElem?_mapIdx]

theorem sparse_eq_some_iff :
    a.sparse.settings[i]? = some (some x) ↔
      a.settings[i]? = some (some x) ∧ ¬ Builder.Omitted a i x := by
  rw [getElem?_sparse, ← omits_iff, Option.map_eq_some_iff]
  constructor
  · intro given
    obtain ⟨y, found, kept⟩ := given
    obtain ⟨rfl, stays⟩ := Option.filter_eq_some_iff.mp kept
    exact ⟨found, by simpa using stays⟩
  · intro given
    obtain ⟨found, stays⟩ := given
    exact ⟨some x, found, Option.filter_eq_some_iff.mpr ⟨rfl, by simpa using stays⟩⟩

theorem stored_eq_some_iff {forced : Bool} :
    (a.stored forced).settings[i]? = some (some x) ↔
      a.settings[i]? = some (some x) ∧ (forced = false → ¬ Builder.Omitted a i x) := by
  cases forced with
  | true => simp [stored]
  | false => simpa [stored] using sparse_eq_some_iff

theorem Fits.stored (fits : a.Fits s) (forced : Bool) : (a.stored forced).Fits s := by
  refine ⟨by rw [stored_schema, fits.schema], ?_, fun i x set => ?_⟩
  · obtain ⟨t, known, size⟩ := fits.table
    refine ⟨t, by rw [stored_table, known], ?_⟩
    cases forced <;> simpa [TableArgs.stored, sparse] using size
  · rw [stored_table]
    exact fits.setting i x (stored_eq_some_iff.mp set).1

/-- Arguments that are stored alike are so after the same has been set in both. -/
theorem sparse_set (same : a.sparse = a'.sparse) (i : Nat) (x : Setting) :
    (a.set i x).sparse = (a'.set i x).sparse := by
  obtain ⟨schema, table, settings⟩ := a
  obtain ⟨schema', table', settings'⟩ := a'
  obtain ⟨rfl, rfl, kept⟩ := TableArgs.mk.inj same
  have size : settings.size = settings'.size := by simpa using congrArg Array.size kept
  refine congrArg (TableArgs.mk schema table) (Array.ext_getElem? fun j => ?_)
  have at' : (settings.mapIdx (keep schema table))[j]? =
      (settings'.mapIdx (keep schema table))[j]? := by rw [kept]
  simp only [Array.getElem?_mapIdx, set, Array.getElem?_setIfInBounds, size] at at' ⊢
  split
  · rfl
  · exact at'

/-- Setting a field to what is left out changes nothing of what is stored. -/
theorem sparse_set_of_omits (omitted : omits a.schema a.table i x)
    (unset : ∀ y, a.settings[i]? ≠ some (some y)) : (a.set i x).sparse = a.sparse := by
  refine congrArg (TableArgs.mk a.schema a.table) (Array.ext_getElem? fun j => ?_)
  simp only [set, Array.getElem?_mapIdx, Array.getElem?_setIfInBounds]
  split
  · rename_i same
    subst same
    split
    · rename_i inside
      have found := Array.getElem?_eq_getElem inside
      have none : a.settings[i] = none := by
        cases value : a.settings[i] with
        | none => rfl
        | some y => exact absurd (by rw [found, value]) (unset y)
      simp [found, none, keep, omitted]
    · rename_i outside
      rw [Array.getElem?_eq_none (by omega)]
  · rfl

end
end TableArgs

namespace Build
variable {α β : Type} {b : Builder}

/-- Steps that do the same, one after the other. -/
theorem runFrom_bind_congr {x y : Build α} {f g : α → Build β} (first : runFrom b x = runFrom b y)
    (next : ∀ a b', runFrom b x = (.ok a, b') → runFrom b' (f a) = runFrom b' (g a)) :
    runFrom b (x >>= f) = runFrom b (y >>= g) := by
  rw [runFrom_bind, runFrom_bind, ← first]
  cases ran : runFrom b x with
  | mk result b' =>
    cases result with
    | error e => rfl
    | ok a => exact next a b' ran

theorem runFrom_get_bind (f : Builder → Build β) : runFrom b (get >>= f) = runFrom b (f b) := rfl

end Build

namespace Builder
variable {s : Schema} {a : TableArgs} {b b' : Builder} {h : History}

/-! ### What is left out -/

private theorem pushSettings_sparse {t : TableDef} (entries : List (Option Setting × Nat))
    (written : List (Nat × Nat)) :
    pushSettings a.sparse t entries written = pushSettings a t entries written := by
  induction entries generalizing written with
  | nil => rfl
  | cons entry rest ih =>
    obtain ⟨x, i⟩ := entry
    cases x with
    | none => exact ih written
    | some x =>
      have same : pushSetting a.sparse t i x = pushSetting a t i x := by cases x <;> rfl
      simp only [pushSettings, same, ih]

private def kept (a : TableArgs) (e : Option Setting × Nat) : Option Setting × Nat :=
  (TableArgs.keep a.schema a.table e.2 e.1, e.2)

private theorem zipIdx_sparse (a : TableArgs) :
    a.sparse.settings.toList.zipIdx = a.settings.toList.zipIdx.map (kept a) := by
  apply List.ext_getElem?
  intro i
  simp only [TableArgs.sparse, List.getElem?_zipIdx, Array.getElem?_toList, Array.getElem?_mapIdx,
    List.getElem?_map, Option.map_map, Nat.zero_add]
  rfl

/-- What is left out are scalars, which need not be placed. -/
private theorem checkSettings_kept (entries : List (Option Setting × Nat)) :
    ((entries.map (kept a)).map Prod.fst).forM checkSetting =
      (entries.map Prod.fst).forM checkSetting := by
  induction entries with
  | nil => rfl
  | cons entry rest ih =>
    obtain ⟨x, i⟩ := entry
    have first : checkSetting (kept a (x, i)).1 = checkSetting x := by
      cases x with
      | none => rfl
      | some x =>
        cases x with
        | reference p | struct values => rfl
        | scalar v =>
          simp only [kept, TableArgs.keep, Option.filter]
          split <;> rfl
    simp only [List.forM_eq_forM] at ih
    simp only [List.map_cons, List.forM_eq_forM, List.forM_cons, first, ih]

/-- A scalar that is the default is passed over. -/
private theorem runFrom_pushSettings_kept (filled : s.Filled) (schema : a.schema = s)
    {t : TableDef} (entries : List (Option Setting × Nat))
    (fits : ∀ x i, (some x, i) ∈ entries → ∃ f, t.fields[i]? = some f ∧ x.Fits s f.type) :
    ∀ (written : List (Nat × Nat)) (b : Builder), b.Sound → b.forceDefaults = false →
      runFrom b (pushSettings a t (entries.map (kept a)) written) =
        runFrom b (pushSettings a t entries written) := by
  induction entries with
  | nil => exact fun _ _ _ _ => rfl
  | cons entry rest ih =>
    intro written b sound unforced
    obtain ⟨x, i⟩ := entry
    have ih := ih fun x i member => fits x i (List.mem_cons_of_mem _ member)
    cases x with
    | none => exact ih written b sound unforced
    | some x =>
      obtain ⟨f, field, holds⟩ := fits x i List.mem_cons_self
      cases omitted : TableArgs.omits a.schema a.table i x with
      | true =>
        have here : kept a (some x, i) = (none, i) := by simp [kept, TableArgs.keep, omitted]
        have skipped : runFrom b (pushSetting a t i x) = (.ok false, b) := by
          cases x with
          | reference p | struct values => cases omitted
          | scalar v =>
            have default : isDefault a.schema a.table i v = true := omitted
            rw [pushSetting, runFrom_get_bind, default, unforced]
            rfl
        rw [List.map_cons, here]
        simp only [pushSettings]
        rw [ih written b sound unforced, runFrom_bind, skipped]
        rfl
      | false =>
        have here : kept a (some x, i) = (some x, i) := by simp [kept, TableArgs.keep, omitted]
        rw [List.map_cons, here]
        simp only [pushSettings]
        refine runFrom_bind_congr rfl fun stored b₁ ran => ?_
        obtain ⟨⟨front, grown⟩, _⟩ :=
          (pushSetting_does filled schema sound field holds (Nat.le_refl _)).of_ok ran
        have sound₁ := grown.sound sound
        have unforced₁ := grown.forceDefaults.trans unforced
        cases stored with
        | true => exact ih _ b₁ sound₁ unforced₁
        | false => exact ih written b₁ sound₁ unforced₁

/-- Where defaults are not forced a table is created without them. -/
theorem runFrom_createTable_sparse (filled : s.Filled) (fits : a.Fits s) (sound : b.Sound)
    (unforced : b.forceDefaults = false) :
    runFrom b (createTable a.sparse) = runFrom b (createTable a) := by
  obtain ⟨t, known, size⟩ := fits.table
  have schema := fits.schema
  have fitting (x : Setting) (i : Nat) (member : (some x, i) ∈ a.settings.toList.zipIdx.reverse) :=
    fits.exists_field_of_mem known (List.mem_reverse.mp member)
  have checks : a.sparse.settings.toList.forM checkSetting =
      a.settings.toList.forM checkSetting := by
    have checks := @checkSettings_kept a a.settings.toList.zipIdx
    rwa [← zipIdx_sparse, List.zipIdx_map_fst, List.zipIdx_map_fst] at checks
  unfold createTable
  rw [TableArgs.sparse_schema, TableArgs.sparse_table, checks, zipIdx_sparse, schema, known]
  dsimp only
  refine runFrom_bind_congr rfl fun _ b₁ checked => ?_
  obtain ⟨rfl, _⟩ := (checkSettings_does _).of_ok checked
  rw [runFrom_get_bind, runFrom_get_bind, ← List.map_reverse, pushSettings_sparse]
  exact runFrom_bind_congr
    (runFrom_pushSettings_kept filled schema _ fitting [] b₁ sound unforced) fun _ _ _ => rfl

/-! ### What is stored -/

/-- A table without its defaults stores all that is left. -/
private theorem TableLaid.sparse {object start : Nat} {slots : List Nat}
    (laid : b.TableLaid object a start slots) (sparse : Sparse a slots) :
    b.TableLaid object a.sparse start slots ∧ Full a.sparse slots := by
  have stored (i : Nat) (x : Setting) (set : a.sparse.settings[i]? = some (some x)) :
      ∃ rev f, slots[i]? = some (object - rev) ∧ rev + offsetSize ≤ object ∧
        a.schema.field? a.table i = some f ∧ x.Fits a.schema f.type ∧
          b.FieldLaid a.schema f.type start rev x := by
    obtain ⟨set, kept⟩ := TableArgs.sparse_eq_some_iff.mp set
    exact (laid.stored i x set).resolve_right fun h => kept h.2
  refine ⟨{ laid with
    stored := fun i x set => .inl (stored i x set)
    missing := fun i unset => ?_
    ordered := laid.ordered }, fun i x set => ?_⟩
  · by_cases set : ∃ x, a.settings[i]? = some (some x)
    · obtain ⟨x, set⟩ := set
      by_cases omitted : Omitted a i x
      · exact sparse i x set omitted
      · exact absurd (TableArgs.sparse_eq_some_iff.mpr ⟨set, omitted⟩) (unset x)
    · exact laid.missing i fun x found => set ⟨x, found⟩
  · obtain ⟨rev, f, slot, inside, _⟩ := stored i x set
    simp only [offsetSize] at inside
    rw [slot, Option.getD_some]
    omega

/-- A table is laid out with all that is stored of its arguments. -/
theorem createTable_stored (filled : s.Filled) (fits : a.Fits s) (sound : b.Sound) :
    (createTable a).Does b fun r b' => b.Creates b' r.rev .table ∧
      (∃ slots, b'.TableLaid r.rev (a.stored b.forceDefaults) b.used.bytes.length slots ∧
        Full (a.stored b.forceDefaults) slots) ∧
        ∀ (i : Nat) p, a.settings[i]? = some (some (.reference p)) → p ∈ b.placed := by
  apply Does.mono (createTable_does filled fits sound)
  intro r b' given
  obtain ⟨creates, ⟨slots, laid, sparse, full⟩, placed⟩ := given
  refine ⟨creates, ⟨slots, ?_⟩, placed⟩
  cases forced : b.forceDefaults with
  | true => exact ⟨laid, full forced⟩
  | false => exact laid.sparse (sparse forced)

def Complete (b : Builder) (h : History) : Prop :=
  ∀ rev a, ⟨rev, .table a⟩ ∈ h → ∃ start slots, b.TableLaid rev a start slots ∧ Full a slots

theorem Complete.kept (complete : b.Complete h) (keeps : b.Keeps b') : b'.Complete h := by
  intro rev a known
  obtain ⟨start, slots, laid, full⟩ := complete rev a known
  exact ⟨start, slots, laid.kept keeps, full⟩

section
variable (built : b.Built s h) (complete : b.Complete h) {rev i : Nat} {f : FieldDef}
  (known : ⟨rev, .table a⟩ ∈ h) (field : s.field? a.table i = some f)
include built complete known field

/-- A field that was set is stored. -/
theorem Complete.exists_stored {x : Setting} (set : a.settings[i]? = some (some x)) :
    ∃ start stored, x.Fits s f.type ∧ b.FieldLaid s f.type start stored x ∧
      b.finished.data.fieldPosition? (b.positionOf rev) i = some (b.positionOf stored) := by
  obtain ⟨start, slots, laid, full⟩ := complete rev a known
  obtain ⟨stored, f', field', holds, fieldLaid, place⟩ := laid.fieldPosition?_of_full full set
  rw [(built.fits _ known a rfl).schema] at field' holds fieldLaid
  obtain rfl : f = f' := Option.some.inj (field.symm.trans field')
  exact ⟨start, stored, holds, fieldLaid, place⟩

/-- A scalar that was set reads as what it was set to. -/
theorem Complete.field_of_scalar (live : f.deprecated = false) {v : Value}
    (set : a.settings[i]? = some (some (.scalar v))) :
    TableView.field ⟨b.finished.data, b.positionOf rev⟩ s a.table i = .scalar v := by
  obtain ⟨start, stored, holds, laid, place⟩ := complete.exists_stored built known field set
  exact Built.readsBack_scalar field live place holds laid

end

/-- A field that was not set reads as its default. -/
theorem Built.field_of_unset (built : b.Built s h) (valid : s.Valid) {rev i : Nat} {f : FieldDef}
    (known : ⟨rev, .table a⟩ ∈ h) (field : s.field? a.table i = some f)
    (live : f.deprecated = false) (unset : ∀ x, a.settings[i]? ≠ some (some x)) :
    TableView.field ⟨b.finished.data, b.positionOf rev⟩ s a.table i =
      ((s.fieldDefault? a.table i).map .scalar).getD .absent := by
  obtain ⟨start, slots, laid⟩ : ∃ start slots, b.TableLaid rev a start slots := built.laid _ known
  exact TableView.field_of_missing valid field live (laid.fieldPosition?_of_unset unset)

end Builder
end FlatTable

import FlatTable.Proofs.Result
import FlatTable.Schema.Resolve

/-! When a description is accepted, and the schema that it describes. -/
namespace FlatTable
namespace Schema
variable {d : Description} {s : Schema}

def named (d : Description) (enums : List EnumDef) (declared : List StructDef) : Schema :=
  ⟨d.nameSpace, d.attributes, enums.toArray,
    (if d.usesVec3 then declared ++ [StructDef.vec3] else declared).toArray,
    (d.tables.map fun t => ⟨t.name, #[]⟩).toArray, none⟩

def resolveTable (names : Schema) (t : Description.Table) : Except SchemaError TableDef := do
  return ⟨t.name, (← t.fields.mapM (names.resolveField t.name)).toArray⟩

/-- A description is accepted if all its parts can be resolved and what they make up is valid. -/
theorem ofDescription_eq_ok_iff : ofDescription d = .ok s ↔
    ∃ enums declared tables, d.enums.mapM Description.Enum.resolve = .ok enums ∧
      d.structs.mapM Description.Struct.resolve = .ok declared ∧
      d.tables.mapM (resolveTable (named d enums declared)) = .ok tables ∧
      (∀ name, d.root = some name → ((named d enums declared).tableId? name).isSome) ∧
      s = { named d enums declared with
        tables := tables.toArray, root := d.root.bind (named d enums declared).tableId? } ∧
      s.validate = .ok () := by
  unfold ofDescription
  simp only [bind_eq_ok_iff (f := fun _ => _)]
  constructor
  · rintro ⟨enums, isEnum, declared, isStruct, tables, isTable, accepted⟩
    refine ⟨enums, declared, tables, isEnum, isStruct, isTable, ?_⟩
    cases isRoot : d.root with
    | none =>
      simp only [isRoot] at accepted
      obtain ⟨valid, same⟩ := check_eq_ok_iff.mp accepted
      obtain rfl := Except.ok.inj same
      exact ⟨by simp, rfl, valid⟩
    | some name =>
      simp only [isRoot] at accepted
      cases found : (named d enums declared).tableId? name with
      | none =>
        unfold named at found
        rw [found] at accepted
        cases accepted
      | some id =>
        unfold named at found
        rw [found] at accepted
        obtain ⟨valid, same⟩ := check_eq_ok_iff.mp accepted
        obtain rfl := Except.ok.inj same
        exact ⟨by simp [named, found], by simp [named, found], valid⟩
  · rintro ⟨enums, declared, tables, isEnum, isStruct, isTable, known, rfl, valid⟩
    refine ⟨enums, isEnum, declared, isStruct, tables, isTable, ?_⟩
    cases isRoot : d.root with
    | none =>
      simp only
      simp only [isRoot] at valid
      exact check_eq_ok_iff.mpr ⟨valid, rfl⟩
    | some name =>
      obtain ⟨id, found⟩ := Option.isSome_iff_exists.mp (known name isRoot)
      simp only [isRoot, Option.bind_some, found] at valid ⊢
      unfold named at found
      rw [found]
      exact check_eq_ok_iff.mpr ⟨valid, rfl⟩

theorem validate_of_ofText {text : String} (loaded : Schema.ofText text = .ok s) :
    s.validate = .ok () := by
  unfold Schema.ofText at loaded
  split at loaded
  · obtain ⟨_, _, _, _, _, _, _, _, valid⟩ := ofDescription_eq_ok_iff.mp loaded
    exact valid
  · cases loaded

end Schema
end FlatTable

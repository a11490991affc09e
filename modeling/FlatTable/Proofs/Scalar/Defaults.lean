import FlatTable.Proofs.Scalar.Shown
import FlatTable.Schema.Resolve

/-! A default in a schema and a value in JSON are read alike, though a default is read with signed integers first
and has its scopes taken off once more. -/
namespace FlatTable

namespace Text

/-- Behind the last separator there is no other. -/
private theorem lastScope?_lastScope? {cs name : List Char} (last : lastScope? cs = some name) :
    lastScope? name = none := by
  induction cs with
  | nil => cases last
  | cons c cs ih =>
    unfold lastScope? at last
    cases rest : lastScope? cs with
    | some name' =>
      rw [rest] at last
      obtain rfl := Option.some.inj last
      exact ih rest
    | none =>
      rw [rest] at last
      dsimp only at last
      split at last
      · obtain rfl := Option.some.inj last
        unfold lastScope? at rest
        cases deeper : lastScope? _ with
        | none => rfl
        | some deeper' =>
          rw [deeper] at rest
          cases rest
      · cases last

theorem stripScope_stripScope (name : String) : stripScope (stripScope name) = stripScope name := by
  cases last : lastScope? name.toList with
  | none =>
    have same : stripScope name = name := by rw [stripScope, last]
    rw [same, same]
  | some inner =>
    have same : stripScope name = String.ofList inner := by rw [stripScope, last]
    rw [same, stripScope, String.toList_ofList, lastScope?_lastScope? last]

end Text

namespace ScalarType

/-- Within the range of `long` it does not matter whether an integer is held with a sign. -/
theorem ofULong?_of_lt {i : Int} (nonnegative : 0 ≤ i) (small : i < 2 ^ 63) (t : ScalarType) :
    t.ofULong? i.toNat = t.ofLong? i := by
  have same : (i.toNat : Int) = i := Int.toNat_of_nonneg nonnegative
  unfold ofULong?
  split
  · have bounded : i < ulong.bound := Int.lt_of_lt_of_le small (by decide)
    have range : ulong.least ≤ i ∧ i < ulong.bound := ⟨nonnegative, bounded⟩
    have modulo : i % (ulong.patterns : Int) = i := Int.emod_eq_of_lt nonnegative bounded
    rw [ofLong?]
    dsimp only [format?]
    rw [if_pos range, modulo]
  · rw [Nat.pow_eq, if_pos (by omega), same]

theorem numberValue?_eq_ofNumber? (t : ScalarType) (json : Json) :
    json.numberValue? t = t.ofNumber? json := by
  cases json with
  | integer i =>
    simp only [Json.numberValue?, ofNumber?, Nat.pow_eq]
    by_cases nonnegative : 0 ≤ i
    · rw [if_pos nonnegative]
      split
      · exact (ofULong?_of_lt nonnegative (by assumption) t).symm
      · rfl
    · rw [if_neg nonnegative, if_pos (by omega)]
  | null | bool _ | real _ | string _ | array _ | object _ => rfl

end ScalarType

namespace Schema

theorem resolveDefault?_eq_scalarOfJson? (s : Schema) (type : FieldType) (json : Json) :
    s.resolveDefault? type json = s.scalarOfJson? type json ∧
      ∀ v, s.scalarOfJson? type json = some v → s.scalarType? type = some v.type := by
  refine ⟨?_, fun v => type_of_scalarOfJson?⟩
  unfold resolveDefault? scalarOfJson?
  refine Option.bind_congr fun scalar found => ?_
  cases json with
  | bool b => rfl
  | null | integer _ | real _ | array _ | object _ => exact scalar.numberValue?_eq_ofNumber? _
  | string text =>
    cases type with
    | enum id =>
      obtain ⟨e, known, _⟩ := Option.map_eq_some_iff.mp found
      have stripped : e.valueOf? (Text.stripScope text) = e.valueOf? text := by
        rw [EnumDef.valueOf?, Text.stripScope_stripScope, EnumDef.valueOf?]
      cases value : e.valueOf? text <;> simp only [scalarOfString?, known, Option.bind_some, stripped, value]
    | scalar _ | string | vector _ | table _ | struct _ => rfl

end Schema
end FlatTable

import FlatTable.Proofs.Character.Draft
import FlatTable.Proofs.Convert.Truncated

/-! Truncated buffers. A verifier that takes the schema's root accepts no proper part of a buffer that
was built from JSON or from a character, whatever its limits are. -/
namespace FlatTable
open Layout Build Builder

namespace Verifier
variable {s : Schema} {b : Buffer} {v : Verifier}

/-- Every truncation is refused of what is built from JSON whose members are sorted, and of what a character
is packed into. -/
theorem refuses_truncated (valid : s.validate = .ok ())
    (built : (∃ json : Json, json.Sorted ∧ s.bufferOfJson json = .ok b) ∨
      (s = Character.schema ∧ ∃ c : Character, c.toBuffer = .ok b))
    (schema : v.schema = s) (isRoot : v.rootTable = none) {n : Nat} (short : n < b.size) :
    v.accepts (b.extract 0 n) = false := by
  have valid := Schema.valid_of_validate valid
  have root : v.root? = s.rootTable? := by rw [root?, isRoot, schema]
  rcases built with ⟨json, sorted, built⟩ | ⟨rfl, c, built⟩
  · obtain ⟨id, t, known, read, built⟩ := Schema.exists_draft_of_bufferOfJson built
    obtain rfl := Schema.id_of_draftTable? read
    have sound := Schema.sound_of_draftTable? s json sorted read
    exact t.accepts_eq_false_of_short valid sound.settable built schema (root.trans known) short
  · rw [Character.toBuffer_eq] at built
    exact TableDraft.accepts_eq_false_of_short valid c.draft_settable built schema root short

def nestedNodes : Json :=
  .object [("next", .array [.object [("name", .string "ab"), ("value", .integer 7)]])]

theorem nestedNodes_refused :
    nestedNodes.Sorted ∧ ∃ b, nodeVerifier.schema.bufferOfJson nestedNodes = .ok b ∧ b.size = 59 ∧
      nodeVerifier.accepts b = true ∧ nodeVerifier.accepts (b.extract 0 58) = false := by
  have sorted : nestedNodes.Sorted := by
    simp only [nestedNodes, Json.Sorted, Json.SortedMembers, Json.SortedItems, List.map_cons,
      List.map_nil, and_true]
    decide
  have accepted : (nodeVerifier.schema.bufferOfJson nestedNodes).toOption.map
      (fun b => (b.size, nodeVerifier.accepts b)) = some (59, true) := by decide +kernel
  obtain ⟨b, built, same⟩ := Option.map_eq_some_iff.mp accepted
  obtain ⟨size, whole⟩ := Prod.mk.inj same
  have built := toOption_eq_some_iff.mp built
  exact ⟨sorted, b, built, size, whole,
    refuses_truncated rfl (.inl ⟨_, sorted, built⟩) rfl rfl (by rw [size]; decide)⟩

end Verifier
end FlatTable

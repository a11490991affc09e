import FlatTable.Proofs.Builder.Accepted
import FlatTable.Proofs.View.Sound

/-! What a builder finishes passes verification. -/
namespace FlatTable
open Layout Build

namespace Construction
variable {s : Schema} {x : Construction} {root : Ref .table} {identifier : Option Identifier}
  {f : FinishedBuffer} {b' : Builder}

/-- Finishing a sound run leaves its objects readable, behind the root's reference. -/
theorem Sound.finish (sound : x.Sound s)
    (finished : runFrom x.builder (Builder.finish root identifier) = (.ok f, b')) :
    f = b'.finished ∧ b'.Built s x.history ∧
      b'.Rooted root.rev ((identifier.map Identifier.bytes).getD []) := by
  obtain ⟨data, _, ⟨front, grown⟩, rooted, _⟩ :=
    (Builder.finish_does root identifier sound.builder).of_ok finished
  exact ⟨data, ⟨grown.sound sound.builder, rooted.whole, rooted.aligned,
    fun c known => (sound.laid c known).kept grown.keeps, sound.fits, sound.grounded⟩, rooted⟩

/-- The root's reference is in front of all objects. -/
theorem Sound.finish_spread (sound : x.Sound s)
    (finished : runFrom x.builder (Builder.finish root identifier) = (.ok f, b')) :
    ∃ top, top + offsetSize ≤ b'.used.bytes.length ∧ b'.Spread top x.history := by
  obtain ⟨_, _, ⟨front, grown⟩, _, room⟩ :=
    (Builder.finish_does root identifier sound.builder).of_ok finished
  exact ⟨x.builder.used.bytes.length, by omega, sound.spread.kept grown.keeps⟩

end Construction

namespace Builder
variable {s : Schema} {h : History} {b : Builder} {root : Nat} {tag : List UInt8}

theorem positionOf_length (b : Builder) : b.positionOf b.used.bytes.length = 0 := Nat.sub_self _

theorem Built.size_le (built : b.Built s h) : b.finished.data.size ≤ maxBufferSize := by
  have small := built.sound.small
  rw [size_data]
  omega

/-- A verifier that asks for the identifier or for none finds what it asks for. -/
theorem Rooted.header {v : Verifier} (rooted : b.Rooted root tag) (asked : v.tag = [] ∨ v.tag = tag)
    (small : b.finished.data.size ≤ v.options.maxBufferSize) : v.Header b.finished.data := by
  have held : b.Held (b.used.bytes.length - offsetSize) v.tag := by
    rcases asked with none | same
    · have tagged := rooted.tagged
      rw [← List.nil_append tag] at tagged
      rw [none]
      exact tagged.left
    · rw [same]
      exact rooted.tagged
  have reference := rooted.reference.held.before
  have behind := held.before
  rw [Bytes.length_encode] at reference
  have read := held.slice?
  rw [positionOf_sub (by omega) (Nat.le_refl _), positionOf_length, Nat.zero_add] at read
  refine ⟨small, ?_, read⟩
  rw [size_data]
  omega

/-- A table of the history that the root's reference leads to is accepted as the root. -/
theorem Built.verify {v : Verifier} {id : Nat} (built : b.Built v.schema h)
    (rooted : b.Rooted root tag) (typed : h.Typed v.schema) (isRoot : h.tableAt? root = some id)
    (header : v.Header b.finished.data) (known : v.root? = some id)
    (shallow : h.depth root ≤ v.options.maxDepth) (few : h.visits root ≤ v.options.maxTables) :
    v.verify b.finished.data = .ok ⟨b.positionOf root, id⟩ := by
  obtain ⟨a, object, rfl⟩ := built.grounded.tableAt?_eq_some_iff.mp isRoot
  have reference := built.refersTo (o := v.options) rooted.reference object
  rw [positionOf_length] at reference
  refine Verifier.verify_eq_ok_iff.mpr
    ⟨header, known, reference, built.wellFormed typed object, ?_, ?_⟩
  · rw [Buffer.depth, built.tally_eq .max typed object]
    exact shallow
  · rw [Buffer.visits, built.tally_eq .sum typed object]
    exact few

end Builder

namespace Construction
variable {s : Schema} {storage : Storage} {steps : List Step} {x : Construction}
  {root : Ref .table} {identifier : Option Identifier} {f : FinishedBuffer} {b' : Builder} {id : Nat}

/-- What a builder has finished is accepted by every verifier that asks for the same root table, for
the identifier or for none, and allows as many tables as there are and as deep as they nest. -/
theorem verify_of_finish (valid : s.validate = .ok ()) (ran : (start storage).run s steps = x)
    (typed : x.history.Typed s) (isRoot : x.history.tableAt? root.rev = some id)
    (finished : runFrom x.builder (Builder.finish root identifier) = (.ok f, b')) :
    f.data.size ≤ maxBufferSize ∧
      ∀ v : Verifier, v.schema = s → v.root? = some id →
        v.identifier = none ∨ v.identifier = identifier →
        f.data.size ≤ v.options.maxBufferSize →
        x.history.depth root.rev ≤ v.options.maxDepth →
        x.history.visits root.rev ≤ v.options.maxTables →
          v.verify f.data = .ok ⟨b'.positionOf root.rev, id⟩ := by
  have sound := run_sound (Schema.valid_of_validate valid) (start_sound s storage) steps
  rw [ran] at sound
  obtain ⟨rfl, built, rooted⟩ := sound.finish finished
  refine ⟨built.size_le, ?_⟩
  rintro v rfl known asked small shallow few
  have tag : v.tag = [] ∨ v.tag = (identifier.map Identifier.bytes).getD [] :=
    asked.imp (fun none => by rw [Verifier.tag, none]; rfl) fun same => by rw [Verifier.tag, same]
  exact built.verify rooted typed isRoot (rooted.header tag small) known shallow few

/-- A name, a node with a number and that name, and a node in front of it. -/
def nodes : Construction := (start (.zeros 0 .standard)).run Verifier.nodeVerifier.schema [
  .string "ab",
  .table 0 [.scalar "value" (ScalarType.short.value 7), .reference "name" ⟨8, .string⟩],
  .tables [⟨20⟩],
  .table 0 [.reference "next" ⟨36, .vector .table⟩]]

theorem nodes_typed : nodes.history.Typed Verifier.nodeVerifier.schema := by decide +kernel

theorem nodes_isRoot : nodes.history.tableAt? 44 = some 0 := by decide +kernel

theorem nodes_finish : ∃ f b', runFrom nodes.builder (Builder.finish ⟨44⟩ none) = (.ok f, b') ∧
    f.data.size = 59 := by
  have size : (runFrom nodes.builder (Builder.finish ⟨44⟩ none)).1.toOption.map
      (·.data.size) = some 59 := by decide +kernel
  cases finished : runFrom nodes.builder (Builder.finish ⟨44⟩ none) with
  | mk result b' =>
    rw [finished] at size
    cases result with
    | error e => cases size
    | ok f => exact ⟨f, b', rfl, Option.some.inj size⟩

theorem nodes_verify :
    Verifier.nodeVerifier.schema.validate = .ok () ∧
      ∃ f b', runFrom nodes.builder (Builder.finish ⟨44⟩ none) = (.ok f, b') ∧
        f.data.size ≤ maxBufferSize ∧
          Verifier.nodeVerifier.verify f.data = .ok ⟨b'.positionOf 44, 0⟩ := by
  obtain ⟨f, b', finished, size⟩ := nodes_finish
  obtain ⟨inBounds, accepted⟩ := verify_of_finish rfl rfl nodes_typed nodes_isRoot finished
  refine ⟨rfl, f, b', finished, inBounds, accepted Verifier.nodeVerifier rfl rfl (.inl rfl) ?_
    (by decide +kernel) (by decide +kernel)⟩
  rw [size]
  decide

end Construction
end FlatTable

import FlatTable.Proofs.Crc32
import FlatTable.Proofs.Mutate.Writes

/-! What the fingerprint tells after any run: whether the bytes have the check value of those that
were verified last. So it never reports a change where there is none, and it misses no change within
four bytes; but it misses the changes that the check value does not show. -/
namespace FlatTable
namespace Editing
variable {m : Editing} {last : Buffer}

def checked (m : Editing) (last : Buffer) : Change → Buffer
  | .reverify =>
    match m.session.reverify with
    | .ok _ => m.session.buffer
    | .error _ => last
  | .root | .nested _ _ | .vector _ _ _ | .field _ _ _ | .slot _ _ _ | .member _ _ _ _
  | .element _ _ _ _ | .item _ _ _ => last

def verified (m : Editing) (last : Buffer) : List Change → Buffer
  | [] => last
  | change :: changes => (m.step change).verified (m.checked last change) changes

/-- What every run keeps: the fingerprint is that of the bytes that were verified last, and there
are as many bytes as there were then. -/
structure Tracked (last : Buffer) (m : Editing) : Prop where
  fingerprint : m.session.fingerprint = Crc32.checksum last
  size : m.session.buffer.size = last.size

theorem step_tracked (h : m.Tracked last) (change : Change) :
    (m.step change).Tracked (m.checked last change) := by
  have size : (m.step change).session.buffer.size = last.size := (size_step m change).trans h.size
  cases change with
  | root | nested | vector | field | slot | member | element | item => exact ⟨h.fingerprint, size⟩
  | reverify =>
    rw [step, checked]
    cases again : m.session.reverify with
    | ok s =>
      obtain ⟨root, _, rfl⟩ := start_eq_ok_iff.mp again
      exact ⟨rfl, rfl⟩
    | error e => exact h

theorem run_tracked (h : m.Tracked last) (changes : List Change) :
    (m.run changes).Tracked (m.verified last changes) := by
  induction changes generalizing m last with
  | nil => exact h
  | cons change changes ih => exact ih (step_tracked h change)

end Editing

namespace Session
variable {v : Verifier} {b last : Buffer} {s : Session} {changes : List Change} {m : Editing}

theorem isMutated_iff (s : Session) :
    s.isMutated = true ↔ Crc32.checksum s.buffer ≠ s.fingerprint := bne_iff_ne

/-- After any run, the bytes count as changed exactly if their check value is not that of the bytes
that were verified last, which is to say that the bits in which both differ leave a remainder. If
all bytes that differ are among four consecutive ones, this is exactly if the bytes are not the same. -/
theorem isMutated_of_run (started : start v b = .ok s) (ran : (Editing.start s).run changes = m)
    (was : (Editing.start s).verified b changes = last) :
    (m.session.isMutated = true ↔ Crc32.checksum m.session.buffer ≠ Crc32.checksum last) ∧
      (m.session.isMutated = true ↔
        Crc32.remainder (Crc32.difference m.session.buffer.toList last.toList) ≠ 0) ∧
      ∀ p, (∀ k, k < p ∨ p + 4 ≤ k → m.session.buffer[k]? = last[k]?) →
        (m.session.isMutated = true ↔ m.session.buffer ≠ last) := by
  obtain ⟨root, _, rfl⟩ := Editing.start_eq_ok_iff.mp started
  have tracked : ((Editing.start _).run changes).Tracked ((Editing.start _).verified b changes) :=
    Editing.run_tracked (m := Editing.start ⟨v, b, root, Crc32.checksum b⟩) ⟨rfl, rfl⟩ changes
  rw [ran, was] at tracked
  rw [isMutated_iff, tracked.fingerprint]
  refine ⟨Iff.rfl, not_congr (Crc32.checksum_eq_iff tracked.size), ?_⟩
  exact fun p near => not_congr (Crc32.checksum_eq_iff_of_near tracked.size near)

def counterVerifier : Verifier := .standard {
  nameSpace := ""
  attributes := []
  enums := #[]
  structs := #[]
  tables := #[⟨"Counter", #[.plain "total" (.scalar .ulong)]⟩]
  root := some 0 }

def counter : Buffer := #[
  12, 0, 0, 0, 6, 0, 12, 0, 4, 0, 0, 0, 8, 0, 0, 0, 0, 0, 0, 0, 0, 0, 0, 0]

def counterSession : Session := ⟨counterVerifier, counter, ⟨12, 0⟩, Crc32.checksum counter⟩

/-- Counts to five, has that verified and starts again from zero. -/
def recount : List Change :=
  [.root, .field 0 0 (ScalarType.ulong.value 5), .reverify, .field 0 0 (ScalarType.ulong.value 0)]

def counted : Buffer := #[
  12, 0, 0, 0, 6, 0, 12, 0, 4, 0, 0, 0, 8, 0, 0, 0, 5, 0, 0, 0, 0, 0, 0, 0]

/-- Once the five has been verified, going back to zero is a change, although the bytes are those
that were there at first. -/
theorem recount_mutated :
    start counterVerifier counter = .ok counterSession ∧
      let m := (Editing.start counterSession).run recount
      (Editing.start counterSession).verified counter recount = counted ∧
        (∀ k, k < 16 ∨ 16 + 4 ≤ k → m.session.buffer[k]? = counted[k]?) ∧
          m.session.buffer = counter ∧ m.session.isMutated = true := by
  have started : start counterVerifier counter = .ok counterSession := rfl
  have after : ((Editing.start counterSession).run recount).session.buffer = counter := by
    decide +kernel
  have was : (Editing.start counterSession).verified counter recount = counted := by decide +kernel
  have near (k : Nat) (away : k < 16 ∨ 16 + 4 ≤ k) : counter[k]? = counted[k]? := by
    by_cases inside : k < 24
    · exact (by decide : ∀ k < 24, k < 16 ∨ 16 + 4 ≤ k → counter[k]? = counted[k]?) k inside away
    · have behind := Nat.not_lt.mp inside
      rw [Array.getElem?_eq_none behind, Array.getElem?_eq_none behind]
  have changed := (isMutated_of_run started rfl was).2.2 16 (after ▸ near)
  exact ⟨started, was, after ▸ near, after, changed.mpr (after ▸ by decide)⟩

/-- Adding a multiple of the polynomial leaves the check value, so this change is missed. -/
theorem counter_missed :
    start counterVerifier counter = .ok counterSession ∧
      let changes := [.root, .field 0 0 (ScalarType.ulong.value 0x1DB710641)]
      let m := (Editing.start counterSession).run changes
      m.session.buffer ≠ (Editing.start counterSession).verified counter changes ∧
        m.session.isMutated = false :=
  ⟨rfl, by decide, by decide +kernel⟩

end Session
end FlatTable

import FlatTable.Proofs.Builder.Tables

/-! The bytes that objects take up. A newer object lies in front of all older ones, so no two share a
byte. -/
namespace FlatTable
open Layout

def Content.size? : Content → Option Nat
  | string s => some (offsetSize + ((Text.encodeUtf8 s).length + 1))
  | scalars t items => some (offsetSize + items.length * t.width)
  | strings items => some (offsetSize + items.length * offsetSize)
  | tables items => some (offsetSize + items.length * offsetSize)
  | table _ => none

namespace Builder
variable {b b' : Builder} {c c' : Creation} {lo hi lo' hi' top : Nat} {h : History}

/-- An object takes up the bytes behind distance `hi` and in front of distance `lo`. Only a table has
bytes in front of its start, those of its vtable. -/
inductive Spans (b : Builder) : Creation → Nat → Nat → Prop where
  | block {c : Creation} {lo size : Nat} (known : c.content.size? = some size)
      (fits : lo + size = c.rev) : Spans b c lo c.rev
  | table {rev start : Nat} {a : TableArgs} {slots : List Nat}
      (laid : b.TableLaid rev a start slots) :
      Spans b ⟨rev, .table a⟩ start (rev + (slots.length + 2) * slotSize)

theorem Spans.kept (h : b.Spans c lo hi) (keeps : b.Keeps b') : b'.Spans c lo hi := by
  cases h with
  | block known fits => exact .block known fits
  | table laid => exact .table (laid.kept keeps)

theorem Spans.unique (h : b.Spans c lo hi) (h' : b.Spans c lo' hi') : lo = lo' ∧ hi = hi' := by
  cases h with
  | block known fits =>
    cases h' with
    | block known' fits' =>
      obtain rfl := Option.some.inj (known.symm.trans known')
      exact ⟨by omega, rfl⟩
    | table => cases known
  | table laid =>
    cases h' with
    | block known => cases known
    | table laid' =>
      obtain ⟨start, length⟩ := laid.unique laid'
      exact ⟨start, by rw [length]⟩

theorem Spans.exists_block {size : Nat} (known : c.content.size? = some size)
    (room : top + size ≤ c.rev) : ∃ lo hi, top ≤ lo ∧ b.Spans c lo hi :=
  ⟨c.rev - size, c.rev, by omega, .block known (by omega)⟩

/-- What a builder has created lies in its used bytes. -/
theorem Spans.le (h : b.Spans c lo hi) (inFront : c.rev ≤ b.used.bytes.length) :
    hi ≤ b.used.bytes.length := by
  cases h with
  | block => exact inFront
  | table laid => exact laid.vtable.le

theorem Spans.lt (h : b.Spans c lo hi) : lo < hi := by
  cases h with
  | @block c _ size known fits =>
    have positive : 0 < size := by
      obtain ⟨rev, content⟩ := c
      cases content <;> cases known <;> exact Nat.add_pos_left (by decide) _
    omega
  | table laid =>
    have room := laid.room
    simp only [offsetSize] at room
    omega

/-- The objects take up bytes behind distance `top`, the newer ones in front of the older ones. -/
def Spread (b : Builder) (top : Nat) : History → Prop
  | [] => True
  | c :: older => ∃ lo hi, b.Spans c lo hi ∧ hi ≤ top ∧ b.Spread lo older

theorem Spread.kept (spread : b.Spread top h) (keeps : b.Keeps b') : b'.Spread top h := by
  induction h generalizing top with
  | nil => trivial
  | cons c older ih =>
    obtain ⟨lo, hi, spans, behind, rest⟩ := spread
    exact ⟨lo, hi, spans.kept keeps, behind, ih rest⟩

theorem Spread.mono {top' : Nat} (spread : b.Spread top h) (le : top ≤ top') :
    b.Spread top' h := by
  cases h with
  | nil => trivial
  | cons c older =>
    obtain ⟨lo, hi, spans, behind, rest⟩ := spread
    exact ⟨lo, hi, spans, Nat.le_trans behind le, rest⟩

theorem Spread.exists_spans (spread : b.Spread top h) (known : c ∈ h) :
    ∃ lo hi, b.Spans c lo hi := by
  induction h generalizing top with
  | nil => cases known
  | cons first older ih =>
    obtain ⟨lo, hi, spans, _, rest⟩ := spread
    rcases List.mem_cons.mp known with rfl | later
    · exact ⟨lo, hi, spans⟩
    · exact ih rest later

/-- Every object lies behind the first byte. -/
theorem Spread.behind (spread : b.Spread top h) (known : c ∈ h) (spans : b.Spans c lo hi) :
    hi ≤ top := by
  induction h generalizing top with
  | nil => cases known
  | cons first older ih =>
    obtain ⟨lo', hi', spans', behind, rest⟩ := spread
    rcases List.mem_cons.mp known with rfl | later
    · rw [(spans.unique spans').2]
      exact behind
    · have inFront := ih rest later
      have := spans'.lt
      omega

/-- No two objects share a byte. -/
theorem Spread.apart (spread : b.Spread top h) (known : c ∈ h) (known' : c' ∈ h) (other : c ≠ c')
    (spans : b.Spans c lo hi) (spans' : b.Spans c' lo' hi') : hi ≤ lo' ∨ hi' ≤ lo := by
  induction h generalizing top with
  | nil => cases known
  | cons first older ih =>
    obtain ⟨lowest, highest, spansFirst, behind, rest⟩ := spread
    rcases List.mem_cons.mp known with rfl | later
    · rcases List.mem_cons.mp known' with rfl | later'
      · exact absurd rfl other
      · obtain ⟨rfl, rfl⟩ := spans.unique spansFirst
        exact .inr (rest.behind later' spans')
    · rcases List.mem_cons.mp known' with rfl | later'
      · obtain ⟨rfl, rfl⟩ := spans'.unique spansFirst
        exact .inl (rest.behind later spans)
      · exact ih rest later later'

end Builder
end FlatTable

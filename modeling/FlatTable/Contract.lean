import FlatTable.Layout

/-! Conditions that the library's own writes meet. -/
namespace FlatTable.Contract
open Layout

/-- What is wrong with a write. Positions of objects count from the end of the buffer. -/
inductive Violation where
  | referenceToNothing
  | referenceNotForward (target used : Nat)
  | vtableTooShort (entries : Nat)
  | vtableSize (size entries : Nat)
  | tableTooSmall (size : Nat)
  | slotOutside (slot distance size : Nat)
  | writeOutside (width pos size : Nat)

def Violation.message : Violation → String
  | referenceToNothing =>
    "Contract violation: uoffset to rev position 0 (nothing is placed there)"
  | referenceNotForward target used =>
    s!"Contract violation: uoffset target rev {target} not behind holder (used {used})"
  | vtableTooShort entries =>
    s!"Contract violation: vtable has {entries} entries, needs at least 2"
  | vtableSize size entries =>
    s!"assertion `left == right` failed: Contract violation: vtable size {size} != " ++
      s!"{entries} entries * 2\n  left: {size}\n right: {entries * slotSize}"
  | tableTooSmall size =>
    s!"Contract violation: table size {size} smaller than its soffset"
  | slotOutside slot distance size =>
    s!"Contract violation: slot {slot} voffset {distance} outside table of {size} bytes"
  | writeOutside width pos size =>
    s!"Contract violation: write of {width} bytes at {pos} past buffer end {size}"

def checkReference (target used : Nat) : Except Violation Unit :=
  if target = 0 then .error .referenceToNothing
  else if target + offsetSize ≤ used then .ok ()
  else .error (.referenceNotForward target used)

def slotOutside? (size : Nat) : Nat → List Nat → Option Violation
  | _, [] => none
  | i, d :: ds =>
    if d = 0 ∨ (offsetSize ≤ d ∧ d < size) then slotOutside? size (i + 1) ds
    else some (.slotOutside i d size)

/-- The entries of a vtable are consistent: its sizes are right and its fields lie in the table. -/
def checkVtable : List Nat → Except Violation Unit
  | vtable :: table :: slots =>
    if vtable ≠ (slots.length + 2) * slotSize then .error (.vtableSize vtable (slots.length + 2))
    else if table < offsetSize then .error (.tableTooSmall table)
    else match slotOutside? table 0 slots with
      | some v => .error v
      | none => .ok ()
  | short => .error (.vtableTooShort short.length)

def checkWrite (pos width size : Nat) : Except Violation Unit :=
  if pos + width ≤ size then .ok () else .error (.writeOutside width pos size)

end FlatTable.Contract

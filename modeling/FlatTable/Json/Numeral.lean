import FlatTable.Decimal.Read
import FlatTable.Json.Basic

/-! Numbers as they stand in a JSON document, and what they denote. -/
namespace FlatTable.Json
open Ieee

/-- The digits of a number. Without a fraction its list is empty, as is that of an absent exponent;
a number that has either is not an integer. -/
structure Numeral where
  negative : Bool
  whole : List Char
  fraction : List Char
  exponentNegative : Bool
  exponent : List Char

namespace Numeral

/-- Appends digits to a significand as long as it stays below 2 ^ 64. What is left over does not
change the significand. -/
def absorb (n : Nat) : List Char → Nat × List Char
  | [] => (n, [])
  | c :: cs =>
    let m := 10 * n + Decimal.digitsValue [c]
    if m < Nat.pow 2 64 then absorb m cs else (n, c :: cs)

def powerOfTen (k : Nat) : Nat := Format.double.ofNat (Nat.pow 10 k)

/-- The significand, rounded to binary64, times the rounded power of ten. Two divisions reach every
magnitude that is not zero. -/
def scale (significand : Nat) (e : Int) : Option Nat :=
  let f := Format.double
  let s := f.ofNat significand
  if s = 0 then some 0
  else if 308 < e then none
  else if 0 ≤ e then
    let m := f.mul s (powerOfTen e.toNat)
    if m = f.infinity then none else some m
  else if -308 ≤ e then some (f.div s (powerOfTen e.natAbs))
  else if -616 ≤ e then
    some (f.div (f.div s (powerOfTen 308)) (powerOfTen (e.natAbs - 308)))
  else some 0

/-- The magnitude of a number that is not an integer. An exponent beyond 31 bits decides alone. -/
def magnitude? (n : Numeral) : Option Nat :=
  let (s, skipped) := absorb 0 n.whole
  let (t, unread) := absorb s n.fraction
  let shift : Int := skipped.length - (n.fraction.length - unread.length : Nat)
  let e := Decimal.digitsValue n.exponent
  if e < Nat.pow 2 31 then scale t (if n.exponentNegative then shift - e else shift + e)
  else if t ≠ 0 ∧ !n.exponentNegative then none
  else some 0

/-- An integer that fits 64 bits, signed or not, stays an integer. Other numbers become binary64, if
they are in its range. The negative zero is binary64 too. -/
def value? (n : Numeral) : Option Json :=
  let whole := Decimal.digitsValue n.whole
  if n.fraction.isEmpty && n.exponent.isEmpty && !n.negative && whole < Nat.pow 2 64 then
    some (.integer whole)
  else if n.fraction.isEmpty && n.exponent.isEmpty && n.negative && 0 < whole &&
      whole ≤ Nat.pow 2 63 then
    some (.integer (-whole))
  else n.magnitude?.map fun m => .real (Format.double.withSign n.negative m)

end Numeral
end FlatTable.Json

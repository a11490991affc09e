import FlatTable.Ieee

/-! The shortest decimal number that reads back as a given binary one: the fewest digits, and of
the candidates with that many digits the nearest. -/
namespace FlatTable.Decimal
open Ieee

/-- A positive decimal number `0.d₁d₂…dₖ * 10 ^ point`, with its digits as text. -/
structure Digits where
  text : String
  point : Int
  deriving DecidableEq

inductive Tie where
  | even
  | up
  deriving DecidableEq

/-- The numbers that round to a finite positive one, over a common denominator. The ends belong to
the interval when the significand is even. -/
structure Interval where
  low : Nat
  value : Nat
  high : Nat
  den : Nat
  closed : Bool

/-- In quarters of a unit in the last place: half a unit to each side, but only a quarter downwards
at a power of two, where the spacing changes. -/
def Interval.of (f : Format) (bits : Nat) : Interval :=
  let m := f.significand bits
  let e := f.exponent bits
  let (n, d) := Format.scaled 1 (e - 2)
  let below := if m = Nat.pow 2 f.fractionBits ∧ f.minExponent < e then 1 else 2
  ⟨(4 * m - below) * n, 4 * m * n, (4 * m + 2) * n, d, m % 2 = 0⟩

def Interval.holds (i : Interval) (a b c : Nat) : Bool :=
  if i.closed then i.low * b ≤ c * a && c * a ≤ i.high * b
  else i.low * b < c * a && c * a < i.high * b

def digitCount (n : Nat) : Nat := (toString n).length

/-- The power of ten just above a positive number: the least `p` with `num / den < 10 ^ p`. -/
def pointOf (num den : Nat) : Int :=
  if den ≤ num then digitCount (num / den)
  else 1 - (digitCount ((den - 1) / num) : Int)

def Interval.gridFactors (i : Interval) : Int → Nat × Nat
  | .ofNat k => (i.den * Nat.pow 10 k, 1)
  | .negSucc k => (i.den, Nat.pow 10 (k + 1))

/-- The multiple of `10 ^ e` nearest to the value among those in the interval, if there is one. Only
the two neighbours of the value can be. -/
def Interval.nearest? (i : Interval) (tie : Tie) (e : Int) : Option Nat :=
  let (a, b) := i.gridFactors e
  let c := i.value * b / a
  let down := i.value * b - c * a
  let up := (c + 1) * a - i.value * b
  match i.holds a b c, i.holds a b (c + 1) with
  | true, false => some c
  | false, true => some (c + 1)
  | false, false => none
  | true, true =>
    if down < up then some c
    else if up < down then some (c + 1)
    else match tie with
      | .even => some (if c % 2 = 0 then c else c + 1)
      | .up => some (c + 1)

/-- Tries one more digit at a time. The fuel is the number of digits that can still be added. -/
def Interval.search (i : Interval) (tie : Tie) (point : Int) : Nat → Nat → Nat × Int
  | 0, k => (i.value / i.den, point - k)
  | fuel + 1, k =>
    match i.nearest? tie (point - k) with
    | some c => (c, point - k)
    | none => i.search tie point fuel (k + 1)

/-- Seventeen digits always suffice for binary64, so the fuel never runs out for either format. -/
def shortest (f : Format) (tie : Tie) (bits : Nat) : Digits :=
  let i := Interval.of f bits
  let (c, e) := i.search tie (pointOf i.value i.den) 20 1
  let all := toString c
  let text := String.ofList (all.toList.reverse.dropWhile (· == '0')).reverse
  ⟨text, e + all.length⟩

end FlatTable.Decimal

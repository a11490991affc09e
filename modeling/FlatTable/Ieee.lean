/-! Binary interchange numbers as bit patterns: what a pattern denotes, and the pattern nearest to
a rational number. Patterns are natural numbers, so NaN payloads and signed zeros stay apart. -/
namespace FlatTable.Ieee

structure Format where
  fractionBits : Nat
  exponentBits : Nat
  deriving DecidableEq

def roundHalfEven (num den : Nat) : Nat :=
  let q := num / den
  let r := num % den
  if 2 * r < den then q
  else if den < 2 * r then q + 1
  else if q % 2 = 0 then q else q + 1

namespace Format

def single : Format := ⟨23, 8⟩

def double : Format := ⟨52, 11⟩

/-- The position of the sign bit, and the width of the magnitude below it. -/
def signBit (f : Format) : Nat := f.fractionBits + f.exponentBits

/-- The exponent of two that one unit in the last place of the smallest numbers has. -/
def minExponent (f : Format) : Int := 2 - Nat.pow 2 (f.exponentBits - 1) - f.fractionBits

/-- The magnitude of infinity. Finite magnitudes lie below it and NaNs above. -/
def infinity (f : Format) : Nat := (Nat.pow 2 f.exponentBits - 1) * Nat.pow 2 f.fractionBits

def magnitude (f : Format) (bits : Nat) : Nat := bits % Nat.pow 2 f.signBit

def isNegative (f : Format) (bits : Nat) : Bool := bits.testBit f.signBit

def withSign (f : Format) (negative : Bool) (magnitude : Nat) : Nat :=
  if negative then magnitude + Nat.pow 2 f.signBit else magnitude

def isNaN (f : Format) (bits : Nat) : Bool := f.infinity < f.magnitude bits

def isFinite (f : Format) (bits : Nat) : Bool := f.magnitude bits < f.infinity

def nan (f : Format) : Nat := f.infinity + Nat.pow 2 (f.fractionBits - 1)

/-- Equality of the numbers denoted: a NaN equals nothing and both zeros are equal. -/
def numEq (f : Format) (a b : Nat) : Bool :=
  !f.isNaN a && !f.isNaN b && (a == b || (f.magnitude a == 0 && f.magnitude b == 0))

def significand (f : Format) (bits : Nat) : Nat :=
  let m := f.magnitude bits
  let hidden := Nat.pow 2 f.fractionBits
  if m < hidden then m else m % hidden + hidden

/-- The exponent of a finite magnitude, shared by the two lowest binades. -/
def exponent (f : Format) (bits : Nat) : Int :=
  f.minExponent + ((f.magnitude bits / Nat.pow 2 f.fractionBits - 1 : Nat) : Int)

def scaled (m : Nat) : Int → Nat × Nat
  | .ofNat k => (m * Nat.pow 2 k, 1)
  | .negSucc k => (m, Nat.pow 2 (k + 1))

def ratio (f : Format) (bits : Nat) : Nat × Nat := scaled (f.significand bits) (f.exponent bits)

/-- The exponent at which `num / den` has a significand of full width, or the least one. -/
def exponentFor (f : Format) (num den : Nat) : Int :=
  let low : Int := (num.log2 : Int) - (den.log2 : Int) - 1 - f.fractionBits
  let (n, d) := scaled den low
  let tight := if num * d < Nat.pow 2 (f.fractionBits + 1) * n then low else low + 1
  max tight f.minExponent

/-- The magnitude nearest to `num / den`, ties to even. Numbers past the largest finite one by half
a unit or more become infinity. A significand that rounds up to the next power of two carries into
the exponent field, which is the right answer. -/
def roundRatio (f : Format) (num den : Nat) : Nat :=
  if num = 0 then 0
  else
    let e := f.exponentFor num den
    let (n, d) := scaled den e
    let m := roundHalfEven (num * d) n
    min ((e - f.minExponent).toNat * Nat.pow 2 f.fractionBits + m) f.infinity

def ofNat (f : Format) (n : Nat) : Nat := f.roundRatio n 1

def ofInt (f : Format) (i : Int) : Nat := f.withSign (i < 0) (f.ofNat i.natAbs)

def toInt? (f : Format) (bits : Nat) : Option Int :=
  if f.isFinite bits then
    let (n, d) := f.ratio bits
    if n % d = 0 then some (if f.isNegative bits then -(n / d : Nat) else (n / d : Nat)) else none
  else none

def mul (f : Format) (a b : Nat) : Nat :=
  let (n, d) := f.ratio a
  let (n', d') := f.ratio b
  f.roundRatio (n * n') (d * d')

def div (f : Format) (a b : Nat) : Nat :=
  let (n, d) := f.ratio a
  let (n', d') := f.ratio b
  f.roundRatio (n * d') (d * n')

/-- A NaN's fraction in another width: the leading bits stay, and the result is quiet. -/
def convertPayload (given target : Format) (bits : Nat) : Nat :=
  let payload := bits % Nat.pow 2 given.fractionBits
  let moved :=
    if target.fractionBits ≤ given.fractionBits then
      payload / Nat.pow 2 (given.fractionBits - target.fractionBits)
    else payload * Nat.pow 2 (target.fractionBits - given.fractionBits)
  moved ||| Nat.pow 2 (target.fractionBits - 1)

def convert (given target : Format) (bits : Nat) : Nat :=
  target.withSign (given.isNegative bits) <|
    if given.isNaN bits then target.infinity + convertPayload given target bits
    else if given.isFinite bits then
      let (n, d) := given.ratio bits
      target.roundRatio n d
    else target.infinity

end Format
end FlatTable.Ieee

import FlatTable.Ieee

/-! Numbers written in decimal: integers with an optional sign, and floating-point numbers, rounded
correctly to binary64. -/
namespace FlatTable.Decimal
open Ieee

def isDigit (c : Char) : Bool := '0' ≤ c && c ≤ '9'

def digitsValue (cs : List Char) : Nat := cs.foldl (fun n c => 10 * n + (c.toNat - '0'.toNat)) 0

def natural? (cs : List Char) : Option Nat :=
  if cs.isEmpty || !cs.all isDigit then none else some (digitsValue cs)

def unsigned? : List Char → Option Nat
  | '+' :: cs => natural? cs
  | cs => natural? cs

def signed? : List Char → Option Int
  | '-' :: cs => (natural? cs).map fun n => -(n : Int)
  | cs => (unsigned? cs).map fun n => (n : Int)

/-- The magnitude nearest to `n * 10 ^ e`. Numbers far outside the range are settled without
computing the power. -/
def scaledMagnitude (f : Format) (n : Nat) (e : Int) : Nat :=
  let size : Int := (toString n).length
  if n = 0 ∨ e + size < -400 then 0
  else if 400 < e + size then f.infinity
  else
    match e with
    | .ofNat k => f.roundRatio (n * Nat.pow 10 k) 1
    | .negSucc k => f.roundRatio n (Nat.pow 10 (k + 1))

def exponent? : List Char → Option Int
  | [] => some 0
  | c :: cs => if c = 'e' ∨ c = 'E' then signed? cs else none

def decimal? (cs : List Char) : Option Nat :=
  let whole := cs.takeWhile isDigit
  let rest := cs.dropWhile isDigit
  let fraction := match rest with
    | '.' :: r => r.takeWhile isDigit
    | _ => []
  let tail := match rest with
    | '.' :: r => r.dropWhile isDigit
    | r => r
  if whole.isEmpty && fraction.isEmpty then none
  else
    (exponent? tail).map fun e =>
      scaledMagnitude Format.double (digitsValue (whole ++ fraction)) (e - fraction.length)

def named? (cs : List Char) : Option Nat :=
  let word := String.ofList (cs.map Char.toLower)
  if word = "inf" ∨ word = "infinity" then some Format.double.infinity
  else if word = "nan" then some Format.double.nan
  else none

def real? (cs : List Char) : Option Nat :=
  let (negative, body) := match cs with
    | '-' :: r => (true, r)
    | '+' :: r => (false, r)
    | r => (false, r)
  ((decimal? body).orElse fun _ => named? body).map (Format.double.withSign negative)

end FlatTable.Decimal

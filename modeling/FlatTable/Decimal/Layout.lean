import FlatTable.Decimal.Shortest

/-! How a floating-point number is written: always positionally for people, and with an exponent
for very large and very small numbers in JSON. -/
namespace FlatTable.Decimal
open Ieee

private def zeros (n : Nat) : String := String.ofList (List.replicate n '0')

/-- Digits and zeros around a point. A number without a fraction has no point. -/
def Digits.positional (d : Digits) : String :=
  let n := d.text.length
  if d.point ≤ 0 then "0." ++ zeros (-d.point).toNat ++ d.text
  else if n ≤ d.point.toNat then d.text ++ zeros (d.point.toNat - n)
  else
    String.ofList (d.text.toList.take d.point.toNat) ++ "." ++
      String.ofList (d.text.toList.drop d.point.toNat)

def Digits.scientific (d : Digits) : String :=
  let e := d.point - 1
  let mantissa :=
    match d.text.toList with
    | [] => ""
    | [c] => c.toString
    | c :: rest => c.toString ++ "." ++ String.ofList rest
  mantissa ++ (if e < 0 then "e-" else "e+") ++ toString e.natAbs

/-- The text for people: never an exponent, and `1` for one. -/
def plain (f : Format) (bits : Nat) : String :=
  if f.isNaN bits then "NaN"
  else
    let m := f.magnitude bits
    let text :=
      if m = 0 then "0"
      else if f.isFinite bits then (shortest f .up m).positional
      else "inf"
    if f.isNegative bits then "-" ++ text else text

/-- The JSON text of a finite binary64 number. It has a point or an exponent, so that it cannot be
taken for an integer. -/
def jsonText (bits : Nat) : String :=
  let f := Format.double
  let m := f.magnitude bits
  let text :=
    if m = 0 then "0.0"
    else
      let d := shortest f .even m
      if -5 < d.point ∧ d.point ≤ 16 then
        if d.text.length ≤ d.point.toNat then d.positional ++ ".0" else d.positional
      else d.scientific
  if f.isNegative bits then "-" ++ text else text

end FlatTable.Decimal

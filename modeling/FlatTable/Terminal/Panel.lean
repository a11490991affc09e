import FlatTable.Scalar.Type
import FlatTable.Terminal.Style
import FlatTable.Text.Quoted

/-! Boxes of lines on a terminal, and how their contents are written. -/
namespace FlatTable.Terminal
open Ieee

def boxWidth : Nat := 72

def hexRow : Nat := 16

def border (s : Style) (text : String) : String := s.paint .gray [] text

def row (s : Style) (content : String) : String :=
  let pad := spaces (boxWidth - (visibleLength content + 1))
  border s "│" ++ " " ++ content ++ pad ++ border s "│"

def rule (s : Style) (left right label : String) : String :=
  let part := "─ " ++ s.paint .cyan [.bold] label ++ " "
  let rest := String.ofList (List.replicate (boxWidth - visibleLength part) '─')
  border s left ++ part ++ border s (rest ++ right)

def top (s : Style) (label : String) : String := rule s "┌" "┐" label

def middle (s : Style) (label : String) : String := rule s "├" "┤" label

def bottom (s : Style) : String :=
  border s ("└" ++ String.ofList (List.replicate boxWidth '─') ++ "┘")

def entry (s : Style) (label value : String) : String :=
  row s (padRight (s.paint .gray [] label) 14 ++ " " ++ value)

def verdict (s : Style) (valid : Bool) : String :=
  if valid then s.paint .green [.bold] "✓ valid" else s.paint .red [.bold] "✗ invalid"

def typeColor (name : String) : Color :=
  if name.startsWith "[" then .magenta
  else if name = "string" then .green
  else if (ScalarType.ofName? name).isSome then .blue
  else .yellow

def typeBadge (s : Style) (name : String) : String := s.paint (typeColor name) [] name

def defaultMarker (s : Style) : String := s.paint .gray [.dim] "(default)"

def glyph (b : UInt8) : Char := if 32 ≤ b.toNat ∧ b.toNat < 127 then Char.ofNat b.toNat else '.'

def hexLine (s : Style) (position : Nat) (bytes : List UInt8) : String :=
  let hex := String.intercalate " " (bytes.map fun b => Text.hexPadded 2 b.toNat)
  let width := hexRow * 3 - 1
  s.paint .gray [] (Text.hexPadded 8 position) ++ "  " ++ hex ++ spaces (width - hex.length) ++
    "  " ++ s.paint .gray [.dim] (String.ofList (bytes.map glyph))

def oneDecimal (num den : Nat) : String :=
  let tenths := roundHalfEven (10 * num) den
  toString (tenths / 10) ++ "." ++ toString (tenths % 10)

def rounded (n : Nat) : Nat :=
  let (num, den) := Format.double.ratio (Format.double.ofNat n)
  num / den

/-- A number of bytes in the largest unit up to megabytes that is not above it. -/
def formatSize (n : Nat) : String :=
  if Nat.pow 2 20 ≤ n then oneDecimal (rounded n) (Nat.pow 2 20) ++ " MB"
  else if Nat.pow 2 10 ≤ n then oneDecimal (rounded n) (Nat.pow 2 10) ++ " KB"
  else toString n ++ " B"

end FlatTable.Terminal

import FlatTable.Decimal.Read
import FlatTable.Text.LowerCase

/-! Colors for dark and for light terminals. -/
namespace FlatTable.Terminal

inductive Theme where
  | dark
  | light
  deriving DecidableEq

inductive Color where
  | red
  | green
  | yellow
  | blue
  | magenta
  | cyan
  | gray
  deriving DecidableEq

def Color.all : List Color := [.red, .green, .yellow, .blue, .magenta, .cyan, .gray]

def Theme.rgb : Theme → Color → Nat × Nat × Nat
  | dark, .red => (224, 108, 117)
  | dark, .green => (152, 195, 121)
  | dark, .yellow => (229, 192, 123)
  | dark, .blue => (97, 175, 239)
  | dark, .magenta => (198, 120, 221)
  | dark, .cyan => (86, 182, 194)
  | dark, .gray => (92, 99, 112)
  | light, .red => (228, 86, 73)
  | light, .green => (80, 161, 79)
  | light, .yellow => (193, 132, 1)
  | light, .blue => (64, 120, 242)
  | light, .magenta => (166, 38, 164)
  | light, .cyan => (1, 132, 188)
  | light, .gray => (160, 161, 167)

def Theme.escape (t : Theme) (c : Color) : String :=
  let (r, g, b) := t.rgb c
  s!"\x1b[38;2;{r};{g};{b}m"

def Theme.name : Theme → String
  | dark => "Dark"
  | light => "Light"

def Theme.ofName? (word : String) : Option Theme :=
  match Text.lowerCase word with
  | "light" | "l" => some .light
  | "dark" | "d" => some .dark
  | _ => none

def lastPart (cs : List Char) : List Char := (cs.reverse.takeWhile (· != ';')).reverse

/-- Does a terminal's color hint end in a light background? Of the sixteen numbered colors those
from 7 on are light, apart from dark gray, which is 8. -/
def isLightHint (hint : String) : Bool :=
  match Decimal.unsigned? (lastPart hint.toList) with
  | some n => 7 ≤ n && n < 256 && n != 8
  | none => false

def Theme.detect (asked hint : Option String) : Theme :=
  match asked.bind Theme.ofName? with
  | some t => t
  | none =>
    match hint with
    | some h => if isLightHint h then .light else .dark
    | none => .dark

end FlatTable.Terminal

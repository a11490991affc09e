import FlatTable.Terminal.Palette

/-! Texts with or without color, and their width on the screen. -/
namespace FlatTable.Terminal

inductive Style where
  | plain
  | colored (theme : Theme)

inductive Emphasis where
  | bold
  | dim

def Emphasis.escape : Emphasis → String
  | bold => "\x1b[1m"
  | dim => "\x1b[2m"

def resetEscape : String := "\x1b[0m"

def Style.paint (s : Style) (color : Color) (emphasis : List Emphasis) (text : String) : String :=
  match s with
  | plain => text
  | colored theme =>
    String.join (emphasis.map Emphasis.escape) ++ theme.escape color ++ text ++ resetEscape

/-- The number of characters shown. An escape sequence ends with the letter `m`, and an unfinished
one hides the rest. -/
def visibleCount (inEscape : Bool) : List Char → Nat
  | [] => 0
  | c :: cs =>
    if c = '\x1b' then visibleCount true cs
    else if inEscape then visibleCount (c != 'm') cs
    else visibleCount false cs + 1

def visibleLength (text : String) : Nat := visibleCount false text.toList

def spaces (n : Nat) : String := String.ofList (List.replicate n ' ')

def padRight (text : String) (width : Nat) : String :=
  text ++ spaces (width - visibleLength text)

end FlatTable.Terminal

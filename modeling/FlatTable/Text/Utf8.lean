/-! UTF-8 text in bytes: strict decoding, and decoding that puts a replacement character in place of
every maximal part that no text starts with. -/
namespace FlatTable.Text

def decodeUtf8? (bytes : List UInt8) : Option String := String.fromUTF8? ⟨bytes.toArray⟩

def encodeUtf8 (s : String) : List UInt8 := s.toUTF8.data.toList

abbrev Tail := Nat × Nat

def anyTail : Tail := (0x80, 0xBF)

def firstByte? (b : Nat) : Option (Nat × List Tail) :=
  if b < 0x80 then some (b, [])
  else if b < 0xC2 then none
  else if b < 0xE0 then some (b - 0xC0, [anyTail])
  else if b = 0xE0 then some (0, [(0xA0, 0xBF), anyTail])
  else if b = 0xED then some (13, [(0x80, 0x9F), anyTail])
  else if b < 0xF0 then some (b - 0xE0, [anyTail, anyTail])
  else if b = 0xF0 then some (0, [(0x90, 0xBF), anyTail, anyTail])
  else if b < 0xF4 then some (b - 0xF0, [anyTail, anyTail, anyTail])
  else if b = 0xF4 then some (4, [(0x80, 0x8F), anyTail, anyTail])
  else none

def replacement : Char := Char.ofNat 0xFFFD

def enter (b : Nat) : List Char × Nat × List Tail :=
  match firstByte? b with
  | none => ([replacement], 0, [])
  | some (v, []) => ([Char.ofNat v], 0, [])
  | some (v, tails) => ([], v, tails)

/-- One byte while `tails` are pending. A byte that does not continue the character ends it, and
starts the next one. -/
def advance (value : Nat) (tails : List Tail) (b : Nat) : List Char × Nat × List Tail :=
  match tails with
  | [] => enter b
  | (low, high) :: rest =>
    if low ≤ b ∧ b ≤ high then
      let v := value * 64 + b % 64
      if rest.isEmpty then ([Char.ofNat v], 0, []) else ([], v, rest)
    else
      let (out, pending) := enter b
      (replacement :: out, pending)

def lossyFrom (value : Nat) (tails : List Tail) : List UInt8 → List Char
  | [] => if tails.isEmpty then [] else [replacement]
  | b :: bs =>
    let (out, v, rest) := advance value tails b.toNat
    out ++ lossyFrom v rest bs

/-- Decodes any bytes. Well-formed text comes out unchanged. -/
def decodeLossy (bytes : List UInt8) : String := String.ofList (lossyFrom 0 [] bytes)

end FlatTable.Text

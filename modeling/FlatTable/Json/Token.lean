import FlatTable.Json.Numeral

/-! The tokens of a JSON document. -/
namespace FlatTable.Json

/-- A string token has no text when an escape in it names half of a surrogate pair without the other
half. -/
inductive Token where
  | openBrace
  | closeBrace
  | openBracket
  | closeBracket
  | colon
  | comma
  | null
  | bool (b : Bool)
  | number (n : Numeral)
  | string (s : Option String)

namespace Token

def isBlank (c : Char) : Bool := c = ' ' || c = '\t' || c = '\n' || c = '\r'

def hexDigit? (c : Char) : Option Nat :=
  if '0' ≤ c ∧ c ≤ '9' then some (c.toNat - '0'.toNat)
  else if 'a' ≤ c ∧ c ≤ 'f' then some (c.toNat - 'a'.toNat + 10)
  else if 'A' ≤ c ∧ c ≤ 'F' then some (c.toNat - 'A'.toNat + 10)
  else none

def codeUnit? (a b c d : Char) : Option Nat := do
  return (((← hexDigit? a) * 16 + (← hexDigit? b)) * 16 + (← hexDigit? c)) * 16 + (← hexDigit? d)

def escape? : Char → Option Char
  | '"' => some '"'
  | '\\' => some '\\'
  | '/' => some '/'
  | 'b' => some (Char.ofNat 8)
  | 'f' => some (Char.ofNat 12)
  | 'n' => some '\n'
  | 'r' => some '\r'
  | 't' => some '\t'
  | _ => none

/-- A text that is being read: its characters, last first, whether all escapes have been paired, and
the first half of a pair that waits for its second. -/
structure Scan where
  chars : List Char
  sound : Bool
  high : Option Nat

def Scan.add (s : Scan) (c : Char) : Scan := ⟨c :: s.chars, s.sound && s.high.isNone, none⟩

def Scan.addUnit (s : Scan) (u : Nat) : Scan :=
  if 0xD800 ≤ u ∧ u < 0xDC00 then ⟨s.chars, s.sound && s.high.isNone, some u⟩
  else if 0xDC00 ≤ u ∧ u < 0xE000 then
    match s.high with
    | some h =>
      let c := Char.ofNat (0x10000 + (h - 0xD800) * 0x400 + (u - 0xDC00))
      ⟨c :: s.chars, s.sound, none⟩
    | none => ⟨s.chars, false, none⟩
  else s.add (Char.ofNat u)

def Scan.result (s : Scan) : Option String :=
  if s.sound && s.high.isNone then some (String.ofList s.chars.reverse) else none

def stringRest? (s : Scan) : List Char → Option (Option String × List Char)
  | [] => none
  | '"' :: cs => some (s.result, cs)
  | '\\' :: 'u' :: a :: b :: c :: d :: cs =>
    (codeUnit? a b c d).bind fun u => stringRest? (s.addUnit u) cs
  | '\\' :: e :: cs => (escape? e).bind fun c => stringRest? (s.add c) cs
  | c :: cs => if c.toNat < 32 ∨ c = '\\' then none else stringRest? (s.add c) cs

def digits (cs : List Char) : List Char × List Char :=
  (cs.takeWhile Decimal.isDigit, cs.dropWhile Decimal.isDigit)

def digits? (cs : List Char) : Option (List Char × List Char) :=
  let (ds, rest) := digits cs
  if ds.isEmpty then none else some (ds, rest)

/-- The digits in front of the point. A leading zero stands alone. -/
def whole? : List Char → Option (List Char × List Char)
  | '0' :: cs => some (['0'], cs)
  | cs => digits? cs

def fraction? : List Char → Option (List Char × List Char)
  | '.' :: cs => digits? cs
  | cs => some ([], cs)

/-- Is there a minus at the front? A plus is skipped too. -/
def sign : List Char → Bool × List Char
  | '-' :: cs => (true, cs)
  | '+' :: cs => (false, cs)
  | cs => (false, cs)

def exponent? : List Char → Option ((Bool × List Char) × List Char)
  | [] => some ((false, []), [])
  | c :: cs =>
    if c = 'e' ∨ c = 'E' then
      (digits? (sign cs).2).map fun (e, rest) => (((sign cs).1, e), rest)
    else some ((false, []), c :: cs)

def number? (negative : Bool) (cs : List Char) : Option (Token × List Char) := do
  let (whole, cs) ← whole? cs
  let (fraction, cs) ← fraction? cs
  let ((exponentNegative, exponent), cs) ← exponent? cs
  return (.number ⟨negative, whole, fraction, exponentNegative, exponent⟩, cs)

def first? : List Char → Option (Token × List Char)
  | '\x7b' :: cs => some (.openBrace, cs)
  | '\x7d' :: cs => some (.closeBrace, cs)
  | '[' :: cs => some (.openBracket, cs)
  | ']' :: cs => some (.closeBracket, cs)
  | ':' :: cs => some (.colon, cs)
  | ',' :: cs => some (.comma, cs)
  | 'n' :: 'u' :: 'l' :: 'l' :: cs => some (.null, cs)
  | 't' :: 'r' :: 'u' :: 'e' :: cs => some (.bool true, cs)
  | 'f' :: 'a' :: 'l' :: 's' :: 'e' :: cs => some (.bool false, cs)
  | '"' :: cs => (stringRest? ⟨[], true, none⟩ cs).map fun (s, rest) => (.string s, rest)
  | '-' :: cs => number? true cs
  | cs => number? false cs

theorem length_lt_of_stringRest? {s : Scan} {cs rest : List Char} {text : Option String}
    (h : stringRest? s cs = some (text, rest)) : rest.length < cs.length := by
  fun_induction stringRest? s cs with
  | case1 => simp at h
  | case2 => simp_all
  | case3 s a b c d cs ih =>
    obtain ⟨u, -, h⟩ := Option.bind_eq_some_iff.mp h
    have := ih u h
    simp only [List.length_cons]
    omega
  | case4 s e cs _ ih =>
    obtain ⟨c, -, h⟩ := Option.bind_eq_some_iff.mp h
    have := ih c h
    simp only [List.length_cons]
    omega
  | case5 => simp at h
  | case6 s c cs _ _ _ _ ih =>
    have := ih h
    simp only [List.length_cons]
    omega

theorem length_lt_of_digits? {cs ds rest : List Char} (h : digits? cs = some (ds, rest)) :
    rest.length < cs.length := by
  have whole := congrArg List.length
    (List.takeWhile_append_dropWhile (p := Decimal.isDigit) (l := cs))
  simp only [digits?, digits, Option.ite_none_left_eq_some, Option.some.injEq, Prod.mk.injEq,
    List.isEmpty_iff, ← List.length_eq_zero_iff] at h
  obtain ⟨found, -, rfl⟩ := h
  simp only [List.length_append] at whole
  omega

theorem length_lt_of_whole? {cs ds rest : List Char} (h : whole? cs = some (ds, rest)) :
    rest.length < cs.length := by
  unfold whole? at h
  split at h
  · simp_all
  · exact length_lt_of_digits? h

theorem length_le_of_fraction? {cs ds rest : List Char} (h : fraction? cs = some (ds, rest)) :
    rest.length ≤ cs.length := by
  unfold fraction? at h
  split at h
  · have := length_lt_of_digits? h
    simp only [List.length_cons]
    omega
  · simp_all

theorem length_sign_le (cs : List Char) : (sign cs).2.length ≤ cs.length := by
  unfold sign
  split <;> simp

theorem length_le_of_exponent? {cs rest : List Char} {e : Bool × List Char}
    (h : exponent? cs = some (e, rest)) : rest.length ≤ cs.length := by
  unfold exponent? at h
  split at h
  · simp_all
  · split at h
    · obtain ⟨⟨ds, r⟩, found, h⟩ := Option.map_eq_some_iff.mp h
      simp only [Prod.mk.injEq] at h
      have := length_lt_of_digits? found
      have := length_sign_le
      grind
    · simp_all

theorem length_lt_of_number? {negative : Bool} {cs rest : List Char} {t : Token}
    (h : number? negative cs = some (t, rest)) : rest.length < cs.length := by
  simp only [number?, bind, Option.bind_eq_some_iff, Prod.exists] at h
  obtain ⟨_, a, hw, _, b, hf, _, _, c, he, h⟩ := h
  have := length_lt_of_whole? hw
  have := length_le_of_fraction? hf
  have := length_le_of_exponent? he
  simp_all
  omega

/-- A token takes at least one character. -/
theorem length_lt_of_first? {cs rest : List Char} {t : Token} (h : first? cs = some (t, rest)) :
    rest.length < cs.length := by
  unfold first? at h
  split at h
  case h_10 cs =>
    obtain ⟨⟨text, r⟩, found, h⟩ := Option.map_eq_some_iff.mp h
    have := length_lt_of_stringRest? found
    simp_all only [Prod.mk.injEq, List.length_cons]
    omega
  case h_11 cs => exact Nat.lt_succ_of_lt (length_lt_of_number? h)
  case h_12 => exact length_lt_of_number? h
  all_goals
    simp only [Option.some.injEq, Prod.mk.injEq] at h
    simp only [h.2, List.length_cons]
    omega

/-- Reads tokens until nothing but blanks is left; `found` holds those read before, last first. -/
def readAll? (found : List Token) (cs : List Char) : Option (List Token) :=
  let rest := cs.dropWhile isBlank
  if rest.isEmpty then some found.reverse
  else
    match _h : first? rest with
    | none => none
    | some (t, after) => readAll? (t :: found) after
termination_by cs.length
decreasing_by
  exact Nat.lt_of_lt_of_le (length_lt_of_first? _h) (List.dropWhile_sublist isBlank).length_le

end Token

def tokens? (text : String) : Option (List Token) := Token.readAll? [] text.toList

end FlatTable.Json

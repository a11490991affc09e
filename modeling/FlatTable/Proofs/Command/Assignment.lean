import FlatTable.Command.Assignment
import FlatTable.Proofs.Result
import FlatTable.Proofs.Text.Trimmed

/-! What the text of an assignment tells: its parts, whatever blanks stand around them. -/
namespace FlatTable

namespace Decimal

theorem isDigit_of_mem_toDigits {n : Nat} {c : Char} (member : c ∈ Nat.toDigits 10 n) : isDigit c := by
  have digit := Nat.isDigit_of_mem_toDigits (by decide) (by decide) member
  simpa [Char.isDigit, isDigit, ← Char.toNat_inj, Char.le_def, UInt32.le_iff_toNat_le] using digit

theorem isBlank_of_isDigit {c : Char} (digit : isDigit c) : Text.isBlank c = false := by
  have bounds : 48 ≤ c.toNat ∧ c.toNat ≤ 57 := by
    simpa [isDigit, Char.le_def, UInt32.le_iff_toNat_le] using digit
  simp [Text.isBlank]
  omega

/-- The digits of a number are read as the number. -/
theorem unsigned?_toDigits (n : Nat) : unsigned? (Nat.toDigits 10 n) = some n := by
  have value : digitsValue (Nat.toDigits 10 n) = n := by
    rw [digitsValue, ← Nat.ofDigitChars_eq_foldl, Nat.ofDigitChars_ten_toDigits]
  have digits : (Nat.toDigits 10 n).all isDigit :=
    List.all_eq_true.mpr fun _ => isDigit_of_mem_toDigits
  have number : natural? (Nat.toDigits 10 n) = some n := by
    simp [natural?, digits, value, Nat.toDigits_ne_nil]
  cases cs : Nat.toDigits 10 n with
  | nil => exact absurd cs Nat.toDigits_ne_nil
  | cons c cs' =>
    have first : isDigit c := isDigit_of_mem_toDigits (n := n) (cs ▸ List.mem_cons_self)
    rw [cs] at number
    unfold unsigned?
    split
    · rename_i plus
      obtain ⟨rfl, _⟩ := List.cons.inj plus
      cases first
    · exact number

end Decimal

namespace CommandLine
open Text

/-! ### The parts in front of the value -/

section
variable {field digits before after : List Char} {i : Nat}

/-- A number below 2 ^ 64 between brackets is an index, with or without blanks around it. -/
private theorem index?_append (number : trim digits = Nat.toDigits 10 i) (small : i < 2 ^ 64) :
    index? (digits ++ [']']) = some i := by
  rw [index?, List.getLast?_concat, if_pos rfl, List.dropLast_concat, number,
    Decimal.unsigned?_toDigits]
  simpa using small

private theorem target?_name (plain : '[' ∉ field) : target? field = .ok (field, none) := by
  rw [target?, splitFirst?_eq_none plain]

private theorem target?_index (plain : '[' ∉ field) (number : trim digits = Nat.toDigits 10 i)
    (small : i < 2 ^ 64) : target? (field ++ '[' :: (digits ++ [']'])) = .ok (trim field, some i) := by
  simp only [target?, splitFirst?_append plain, index?_append number small]

end

/-! ### Whole texts -/

section
variable {left value member : List Char} {field : List Char} {index : Option Nat}

/-- Without a point the value is that of a field or of one of its elements. -/
private theorem ofText_of_target (none : '=' ∉ left) (whole : '.' ∉ left)
    (target : target? (trim left) = .ok (field, index)) :
    Assignment.ofText (String.ofList (left ++ '=' :: value)) =
      .ok ⟨String.ofList field, index, .none, String.ofList (trim value)⟩ := by
  have whole' : '.' ∉ trim left := fun point => whole (mem_of_mem_trim point)
  simp only [Assignment.ofText, String.toList_ofList, splitFirst?_append none,
    splitFirst?_eq_none whole', target]
  rfl

/-- The value of a member stands behind the first point and the equals sign. -/
private theorem ofText_of_member (none : '=' ∉ left ++ '.' :: member) (whole : '.' ∉ left)
    (target : target? (left.dropWhile isBlank) = .ok (field, index)) :
    Assignment.ofText (String.ofList (left ++ '.' :: member ++ '=' :: value)) =
      .ok ⟨String.ofList field, index, some (String.ofList (trim member)),
        String.ofList (trim value)⟩ := by
  have whole' : '.' ∉ left.dropWhile isBlank :=
    fun point => whole ((List.dropWhile_sublist _).mem point)
  have solid : isBlank '.' = false := rfl
  simp only [Assignment.ofText, String.toList_ofList, splitFirst?_append none,
    trim_append_cons solid, splitFirst?_append whole', trim_trimEnd, target]
  rfl

end

/-! ### What is written is read -/

def Spaced (text spaced : String) : Prop :=
  ∃ before after : String, Blanks before.toList ∧ Blanks after.toList ∧
    spaced = before ++ text ++ after

/-- A name that can stand in front of an index, a member or a value. -/
structure IsFieldName (name : String) : Prop where
  value : '=' ∉ name.toList
  member : '.' ∉ name.toList
  index : '[' ∉ name.toList
  trimmed : Trimmed name.toList

section
variable {text spaced : String}

private theorem Spaced.trim (h : Spaced text spaced) (trimmed : Trimmed text.toList) :
    Text.trim spaced.toList = text.toList := by
  obtain ⟨before, after, front, back, rfl⟩ := h
  simp only [String.toList_append]
  exact (trim_append front back).trans trimmed

private theorem Spaced.not_mem (h : Spaced text spaced) {sep : Char} (solid : isBlank sep = false)
    (absent : sep ∉ text.toList) : sep ∉ spaced.toList := by
  obtain ⟨before, after, front, back, rfl⟩ := h
  simp only [String.toList_append, List.mem_append, not_or]
  exact ⟨⟨front.not_mem solid, absent⟩, back.not_mem solid⟩

end

section
variable {field value f v : String} (named : IsFieldName field) (trimmedValue : Trimmed value.toList)
  (hv : Spaced value v)
include named trimmedValue hv

private theorem ofText_field (hf : Spaced field f) :
    Assignment.ofText (f ++ "=" ++ v) = .ok ⟨field, none, none, value⟩ := by
  have target : target? (Text.trim f.toList) = .ok (field.toList, none) := by
    rw [hf.trim named.trimmed, target?_name named.index]
  have text : f ++ "=" ++ v = String.ofList (f.toList ++ '=' :: v.toList) := by
    simp [← String.toList_inj]
  rw [text, ofText_of_target (hf.not_mem rfl named.value) (hf.not_mem rfl named.member) target,
    hv.trim trimmedValue, String.ofList_toList, String.ofList_toList]

private theorem ofText_element {i : Nat} (small : i < 2 ^ 64) (hf : Spaced field f) {n after : String}
    (hn : Spaced (toString i) n) (back : Blanks after.toList) :
    Assignment.ofText (f ++ "[" ++ n ++ "]" ++ after ++ "=" ++ v) =
      .ok ⟨field, some i, none, value⟩ := by
  have digits : (toString i).toList = Nat.toDigits 10 i := by
    rw [Nat.toString_eq_ofList_toDigits, String.toList_ofList]
  have digit {c : Char} (member : c ∈ (toString i).toList) : Decimal.isDigit c :=
    Decimal.isDigit_of_mem_toDigits (digits ▸ member)
  have number : Text.trim n.toList = Nat.toDigits 10 i := by
    rw [hn.trim (trimmed_of_solid fun c member => Decimal.isBlank_of_isDigit (digit member)), digits]
  -- the separators that are looked for first are neither in the number nor behind it
  have absent {sep : Char} (solid : isBlank sep = false) (other : Decimal.isDigit sep = false)
      (plain : sep ∉ field.toList) (outer : sep ≠ '[' ∧ sep ≠ ']') :
      sep ∉ f.toList ++ '[' :: (n.toList ++ ']' :: after.toList) := by
    have inNumber : sep ∉ n.toList :=
      hn.not_mem solid fun member => by simp [digit member] at other
    simp [hf.not_mem solid plain, inNumber, back.not_mem solid, outer]
  have target : target? (Text.trim (f.toList ++ '[' :: (n.toList ++ ']' :: after.toList))) =
      .ok (field.toList, some i) := by
    have front : '[' ∉ f.toList.dropWhile isBlank :=
      fun inside => hf.not_mem rfl named.index ((List.dropWhile_sublist _).mem inside)
    rw [trim_append_cons rfl, trimEnd_append_cons rfl, trimEnd_blanks back,
      target?_index front number small, trim_dropWhile, hf.trim named.trimmed]
  have text : f ++ "[" ++ n ++ "]" ++ after ++ "=" ++ v = String.ofList
      (f.toList ++ '[' :: (n.toList ++ ']' :: after.toList) ++ '=' :: v.toList) := by
    simp [← String.toList_inj]
  rw [text, ofText_of_target (absent rfl rfl named.value (by decide))
    (absent rfl rfl named.member (by decide)) target, hv.trim trimmedValue, String.ofList_toList,
    String.ofList_toList]

private theorem ofText_member {member before after m : String} (apart : '=' ∉ member.toList)
    (trimmedMember : Trimmed member.toList) (front : Blanks before.toList)
    (back : Blanks after.toList) (hm : Spaced member m) :
    Assignment.ofText (before ++ field ++ after ++ "." ++ m ++ "=" ++ v) =
      .ok ⟨if field = "" then "" else field ++ after, none, some member, value⟩ := by
  have hf : Spaced field (before ++ field ++ after) := ⟨before, after, front, back, rfl⟩
  -- only the blanks in front of the field are at an end of the text
  have whole : (before ++ field ++ after).toList.dropWhile isBlank =
      if field.toList = [] then [] else field.toList ++ after.toList := by
    simp only [String.toList_append]
    exact named.trimmed.dropWhile_append front back
  have none : '=' ∉ (before ++ field ++ after).toList ++ '.' :: m.toList := by
    rw [List.mem_append, List.mem_cons, not_or, not_or]
    exact ⟨hf.not_mem rfl named.value, by decide, hm.not_mem rfl apart⟩
  have unindexed : '[' ∉ (before ++ field ++ after).toList.dropWhile isBlank :=
    fun inside => hf.not_mem rfl named.index ((List.dropWhile_sublist _).mem inside)
  have text : before ++ field ++ after ++ "." ++ m ++ "=" ++ v = String.ofList
      ((before ++ field ++ after).toList ++ '.' :: m.toList ++ '=' :: v.toList) := by
    simp [← String.toList_inj]
  rw [text, ofText_of_member none (hf.not_mem rfl named.member) (target?_name unindexed), whole,
    hm.trim trimmedMember, hv.trim trimmedValue, String.ofList_toList, String.ofList_toList]
  by_cases empty : field = ""
  · simp [empty]
  · have some : field.toList ≠ [] := by simpa using empty
    rw [if_neg empty, if_neg some, String.ofList_append, String.ofList_toList, String.ofList_toList]

end

/-- An assignment is read as what it says, whatever blanks stand around its parts, but for blanks between
a field and the point in front of a member, which are taken for the end of the field. A value may hold any
characters. -/
theorem ofText_of_spaced {field member value v : String} {i : Nat} (named : IsFieldName field)
    (apart : '=' ∉ member.toList) (trimmedMember : Trimmed member.toList)
    (trimmedValue : Trimmed value.toList) (small : i < 2 ^ 64) (hv : Spaced value v) :
    (∀ f, Spaced field f →
      Assignment.ofText (f ++ "=" ++ v) = .ok ⟨field, none, none, value⟩) ∧
    (∀ f n after, Spaced field f → Spaced (toString i) n → Blanks after.toList →
      Assignment.ofText (f ++ "[" ++ n ++ "]" ++ after ++ "=" ++ v) =
        .ok ⟨field, some i, none, value⟩) ∧
    ∀ before after m, Blanks before.toList → Blanks after.toList → Spaced member m →
      Assignment.ofText (before ++ field ++ after ++ "." ++ m ++ "=" ++ v) =
        .ok ⟨if field = "" then "" else field ++ after, none, some member, value⟩ := by
  refine ⟨?_, ?_, ?_⟩
  · intro f hf
    exact ofText_field named trimmedValue hv hf
  · intro f n after hf hn back
    exact ofText_element named trimmedValue hv small hf hn back
  · intro before after m front back hm
    exact ofText_member named trimmedValue hv apart trimmedMember front back hm

/-- Blanks everywhere but in front of the point, and a value that looks like an assignment itself. -/
theorem ofText_of_spaced_place :
    IsFieldName "pos" ∧ Spaced "a.b[0]=c" " a.b[0]=c " ∧
    Assignment.ofText " pos = a.b[0]=c " = .ok ⟨"pos", none, none, "a.b[0]=c"⟩ ∧
    Assignment.ofText " pos [ 7 ] = a.b[0]=c " = .ok ⟨"pos", some 7, none, "a.b[0]=c"⟩ ∧
    Assignment.ofText " pos. x = a.b[0]=c " = .ok ⟨"pos", none, some "x", "a.b[0]=c"⟩ := by
  have named : IsFieldName "pos" := ⟨by decide, by decide, by decide, rfl⟩
  have blank : Blanks " ".toList := by
    intro c member
    simp at member
    simp [member, isBlank]
  have spaced (text : String) : Spaced text (" " ++ text ++ " ") := ⟨" ", " ", blank, blank, rfl⟩
  obtain ⟨whole, element, part⟩ := @ofText_of_spaced "pos" "x" "a.b[0]=c" _ 7 named (by decide) rfl rfl
    (by decide) (spaced _)
  exact ⟨named, spaced _, whole _ (spaced _), element _ _ " " (spaced _) (spaced _) blank,
    part " " "" _ blank blanks_nil (spaced _)⟩

/-- With a blank in front of the point another field is read, whose name ends in the blank. -/
theorem ofText_place_point : IsFieldName "pos" ∧ Spaced "pos" "pos " ∧
    Assignment.ofText "pos .x=1" = .ok ⟨"pos ", none, some "x", "1"⟩ := by
  refine ⟨⟨by decide, by decide, by decide, rfl⟩, ⟨"", " ", blanks_nil, ?_, rfl⟩, by decide +kernel⟩
  intro c member
  simp at member
  simp [member, isBlank]

end CommandLine
end FlatTable

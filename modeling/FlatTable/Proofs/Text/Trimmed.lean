import FlatTable.Text.Blank
import Mathlib.Data.List.DropRight

/-! Texts with blanks around them, and texts in two parts with a separator between them. -/
namespace FlatTable.Text
variable {before cs after : List Char} {sep : Char}

def Blanks (cs : List Char) : Prop := ∀ c ∈ cs, isBlank c

def Trimmed (cs : List Char) : Prop := trim cs = cs

theorem Trimmed.trim_eq (trimmed : Trimmed cs) : trim cs = cs := trimmed

theorem blanks_nil : Blanks [] := fun _ member => nomatch member

theorem Blanks.not_mem (blanks : Blanks cs) (solid : isBlank sep = false) : sep ∉ cs := by
  intro member
  rw [blanks sep member] at solid
  cases solid

theorem Blanks.dropWhile (blanks : Blanks cs) : cs.dropWhile isBlank = [] :=
  List.dropWhile_eq_nil_iff.mpr blanks

/-! ### Blanks at the ends -/

theorem trimEnd_blanks (blanks : Blanks cs) : trimEnd cs = [] := by
  rw [trimEnd, List.dropWhile_eq_nil_iff.mpr fun c member => blanks c (List.mem_reverse.mp member),
    List.reverse_nil]

theorem trimEnd_append (blanks : Blanks after) : trimEnd (cs ++ after) = trimEnd cs := by
  unfold trimEnd
  rw [List.reverse_append,
    List.dropWhile_append_of_pos fun c member => blanks c (List.mem_reverse.mp member)]

/-- What stands in front of a character that is no blank stays. -/
theorem trimEnd_append_cons (solid : isBlank sep = false) :
    trimEnd (before ++ sep :: after) = before ++ sep :: trimEnd after := by
  unfold trimEnd
  rw [List.reverse_append, List.reverse_cons, List.append_assoc, List.dropWhile_append]
  split
  · rename_i blank
    rw [List.isEmpty_iff.mp blank]
    simp [solid]
  · simp

/-- Blanks around a text do not count. -/
theorem trim_append (front : Blanks before) (back : Blanks after) :
    trim (before ++ cs ++ after) = trim cs := by
  unfold trim
  rw [List.append_assoc, List.dropWhile_append_of_pos front, List.dropWhile_append]
  split
  · rename_i blank
    rw [List.isEmpty_iff.mp blank, back.dropWhile]
  · exact trimEnd_append back

/-- A character that is no blank keeps what stands around it from each other. -/
theorem trim_append_cons (solid : isBlank sep = false) :
    trim (before ++ sep :: after) = before.dropWhile isBlank ++ sep :: trimEnd after := by
  unfold trim
  rw [List.dropWhile_append]
  split
  · rename_i blank
    rw [List.isEmpty_iff.mp blank, List.dropWhile_cons, if_neg (by simp [solid])]
    exact (trimEnd_append_cons solid : trimEnd ([] ++ sep :: after) = _)
  · exact trimEnd_append_cons solid

theorem mem_of_mem_trim {c : Char} (member : c ∈ trim cs) : c ∈ cs := by
  have inner : c ∈ cs.dropWhile isBlank := by
    simp only [trim, trimEnd, List.mem_reverse] at member
    exact List.mem_reverse.mp ((List.dropWhile_sublist _).mem member)
  exact (List.dropWhile_sublist _).mem inner

theorem trim_dropWhile (cs : List Char) : trim (cs.dropWhile isBlank) = trim cs := by
  unfold trim
  rw [List.dropWhile_idempotent]

/-- The blanks at the end can be taken off first. -/
theorem trim_trimEnd (cs : List Char) : trim (trimEnd cs) = trim cs := by
  have whole : cs = [] ++ trimEnd cs ++ (cs.reverse.takeWhile isBlank).reverse := by
    rw [List.nil_append, trimEnd, ← List.reverse_append, List.takeWhile_append_dropWhile,
      List.reverse_reverse]
  have back : Blanks (cs.reverse.takeWhile isBlank).reverse := by
    intro c member
    exact List.mem_takeWhile_imp (List.mem_reverse.mp member)
  rw [whole, trim_append blanks_nil back, ← whole]

theorem trimmed_trim (cs : List Char) : Trimmed (trim cs) := by
  change trim (trimEnd (cs.dropWhile isBlank)) = trim cs
  rw [trim_trimEnd, trim_dropWhile]

theorem trimmed_of_solid (solid : ∀ c ∈ cs, isBlank c = false) : Trimmed cs := by
  have stays {cs : List Char} (solid : ∀ c ∈ cs, isBlank c = false) : cs.dropWhile isBlank = cs := by
    cases cs with
    | nil => rfl
    | cons c cs => rw [List.dropWhile_cons, if_neg (by simp [solid c List.mem_cons_self])]
  have reversed : cs.reverse.dropWhile isBlank = cs.reverse :=
    stays fun c member => solid c (List.mem_reverse.mp member)
  rw [Trimmed, trim, stays solid, trimEnd, reversed, List.reverse_reverse]

/-- A text that starts and ends with other characters than blanks. -/
theorem trimmed_of_ends {first last : Char} (start : isBlank first = false)
    (stop : isBlank last = false) : Trimmed (first :: (cs ++ [last])) := by
  have front : trim ([] ++ first :: (cs ++ [last])) = [] ++ first :: trimEnd (cs ++ [last]) :=
    trim_append_cons start
  rw [trimEnd_append_cons stop] at front
  exact front

/-- Blanks behind a text without blanks around it are what is left of it when those in front are taken
off, unless the text is empty. -/
theorem Trimmed.dropWhile_append (trimmed : Trimmed cs) (front : Blanks before)
    (back : Blanks after) :
    (before ++ cs ++ after).dropWhile isBlank = if cs = [] then [] else cs ++ after := by
  rw [List.append_assoc, List.dropWhile_append_of_pos front]
  split
  · rename_i empty
    rw [empty, List.nil_append, back.dropWhile]
  · rename_i some
    have start : cs.dropWhile isBlank = cs := by
      refine List.IsSuffix.eq_of_length_le (List.dropWhile_suffix _) ?_
      have shorter : (trim cs).length ≤ (cs.dropWhile isBlank).length := by
        simp only [trim, trimEnd, List.length_reverse]
        exact (List.dropWhile_sublist _).length_le.trans (by simp)
      rwa [trimmed] at shorter
    rw [List.dropWhile_append, start, if_neg (by simpa using some)]

/-! ### The first separator -/

theorem splitFirst?_append (absent : sep ∉ before) :
    splitFirst? sep (before ++ sep :: after) = some (before, after) := by
  induction before with
  | nil => simp [splitFirst?]
  | cons c before ih =>
    obtain ⟨other, absent⟩ := List.ne_and_not_mem_of_not_mem_cons absent
    rw [List.cons_append, splitFirst?, if_neg (Ne.symm other), ih absent, Option.map_some]

theorem splitFirst?_eq_none (absent : sep ∉ cs) : splitFirst? sep cs = none := by
  induction cs with
  | nil => rfl
  | cons c cs ih =>
    obtain ⟨other, absent⟩ := List.ne_and_not_mem_of_not_mem_cons absent
    rw [splitFirst?, if_neg (Ne.symm other), ih absent, Option.map_none]

end FlatTable.Text

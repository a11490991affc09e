import FlatTable.Command.FileSystem
import FlatTable.Proofs.Result

/-! Reading and writing files: what has been written is read again, and no other file changes. -/
namespace FlatTable

/-- Nothing follows the last separator only where it is the last character. -/
theorem getLast?_of_splitOn {sep : Char} {cs : List Char} (given : cs ≠ [])
    (empty : (cs.splitOn sep).getLast? = some []) : cs.getLast? = some sep := by
  induction cs with
  | nil => exact absurd rfl given
  | cons c cs ih =>
    rw [List.splitOn_eq_splitOnP, List.splitOnP_cons_eq_if_modifyHead,
      ← List.splitOn_eq_splitOnP] at empty
    cases cs with
    | nil =>
      by_cases isSep : c = sep
      · rw [isSep, List.getLast?_singleton]
      · simp [isSep] at empty
    | cons d cs =>
      rw [List.getLast?_cons_cons]
      apply ih (List.cons_ne_nil d cs)
      obtain ⟨head, tail, parts⟩ := List.exists_cons_of_ne_nil (List.splitOn_ne_nil sep (d :: cs))
      rw [parts] at empty ⊢
      by_cases isSep : c = sep
      · rwa [if_pos (by simpa using isSep), List.getLast?_cons_cons] at empty
      · rw [if_neg (by simpa using isSep), List.modifyHead_cons] at empty
        cases tail with
        | nil => cases empty
        | cons next tail => rwa [List.getLast?_cons_cons] at empty ⊢

namespace FileSystem
variable {fs fs' : FileSystem} {path name : String} {p q r : Path} {e : Entry} {b : Buffer}

/-! ### Entries -/

private theorem lookup_filter_ne {l : List (Path × Entry)} (other : q ≠ p) :
    (l.filter fun old => old.1 != p).lookup q = l.lookup q := by
  induction l with
  | nil => rfl
  | cons old l ih =>
    obtain ⟨place, entry⟩ := old
    by_cases same : place = p
    · rw [List.filter_cons_of_neg (by simpa using same), ih, List.lookup_cons,
        beq_false_of_ne (same ▸ other)]
    · rw [List.filter_cons_of_pos (by simpa using same), List.lookup_cons, List.lookup_cons, ih]

theorem entry?_set_of_ne (other : q ≠ p) : entry? (fs.set p e) q = fs.entry? q := by
  unfold entry? set
  rw [List.lookup_cons, beq_false_of_ne other]
  simp only [lookup_filter_ne other]

theorem entry?_set (free : fs.entry? p ≠ some .directory) : entry? (fs.set p e) p = some e := by
  unfold entry? at *
  have inside : ¬ (isAbove p ∨ p = rootDirectory) := fun fixed => free (if_pos fixed)
  rw [if_neg inside, set, List.lookup_cons_self]

/-! ### Paths -/

/-- Only a directory is entered. -/
theorem entry?_of_enter (entered : fs.enter p name = .ok q) : fs.entry? p = some .directory := by
  unfold enter at entered
  split at entered
  · cases entered
  · cases entered
  · assumption

theorem enter_congr (same : fs'.entry? p = fs.entry? p) (name : String) :
    fs'.enter p name = fs.enter p name := by
  unfold enter
  rw [same]

/-- A directory can be entered by its own name, which leads nowhere else. -/
theorem eq_of_enter_dot (entered : fs.enter p "." = .ok q) : q = p := by
  have directory := entry?_of_enter entered
  rw [enter, directory] at entered
  exact (Except.ok.inj entered).symm

/-- Where a path leads is not changed by an entry where no directory is. -/
theorem foldlM_enter_set (free : fs.entry? p ≠ some .directory) {names : List String}
    (found : names.foldlM fs.enter q = .ok r) : names.foldlM (fs.set p e).enter q = .ok r := by
  induction names generalizing q with
  | nil => exact found
  | cons name names ih =>
    rw [List.foldlM_cons, bind_eq_ok_iff] at found ⊢
    obtain ⟨next, entered, found⟩ := found
    refine ⟨next, ?_, ih found⟩
    rw [enter_congr (entry?_set_of_ne ?_), entered]
    rintro rfl
    exact free (entry?_of_enter entered)

theorem locate_set (free : fs.entry? p ≠ some .directory) (found : fs.locate path = .ok q) :
    (fs.set p e).locate path = .ok q := by
  unfold locate at *
  rw [bind_eq_ok_iff] at *
  obtain ⟨names, given, found⟩ := found
  exact ⟨names, given, foldlM_enter_set free found⟩

/-- Without a slash at the end the last name of a path is not empty. -/
theorem getLast?_of_names {given : List String} (ends : path.toList.getLast? ≠ some '/')
    (split : names path = .ok given) : given ≠ [] ∧ given.getLast? ≠ some "" := by
  unfold names at split
  obtain ⟨some, split⟩ := throw_else_eq_ok_iff.mp split
  obtain ⟨_, split⟩ := throw_else_eq_ok_iff.mp split
  obtain rfl := Except.ok.inj split
  refine ⟨by simp [Text.splitAll], ?_⟩
  intro last
  rw [Text.splitAll, List.getLast?_map, Option.map_eq_some_iff] at last
  obtain ⟨part, last, isEmpty⟩ := last
  obtain rfl : part = [] := by simpa using isEmpty
  exact ends (getLast?_of_splitOn (by simpa using some) last)

/-- The last name of a path, entered from the directory that holds it, leads where the path does. -/
theorem locate_of_locateLast {holder : Path} (ends : path.toList.getLast? ≠ some '/')
    (found : fs.locateLast path = .ok (holder, name)) (entered : fs.enter holder name = .ok p) :
    fs.locate path = .ok p := by
  unfold locateLast at found
  obtain ⟨given, split, found⟩ := bind_eq_ok_iff.mp found
  obtain ⟨some, last⟩ := getLast?_of_names ends split
  obtain ⟨front, final, rfl⟩ := List.eq_nil_or_concat' given |>.resolve_left some
  have named : final ≠ "" := fun empty => last (by simp [empty])
  have kept : ((front ++ [final]).reverse.dropWhile (· = "")).reverse = front ++ [final] := by
    simp [named]
  dsimp only at found
  rw [kept, List.dropLast_concat, List.foldlM_append] at found
  obtain ⟨inside, walked, found⟩ := bind_eq_ok_iff.mp found
  obtain ⟨directory, first, walked⟩ := bind_eq_ok_iff.mp walked
  obtain ⟨rfl, rfl⟩ := Prod.mk.inj (Except.ok.inj found)
  obtain ⟨_, dot, walked⟩ := bind_eq_ok_iff.mp walked
  obtain rfl := Except.ok.inj walked
  obtain rfl := eq_of_enter_dot dot
  rw [List.getLastD_concat] at entered
  rw [locate, split, ok_bind, List.foldlM_append, first, ok_bind, List.foldlM_cons, entered]
  rfl

/-! ### Writing -/

/-- What the file at a path holds is replaced, and no other entry is different. -/
structure Puts (fs : FileSystem) (path : String) (b : Buffer) (fs' : FileSystem) : Prop where
  place : ∃ p, fs.locate path = .ok p ∧ fs'.entry? p = some (.file b) ∧
    ∀ q ≠ p, fs'.entry? q = fs.entry? q
  read : fs'.read path = .ok b

theorem puts_of_write (written : fs.write path b = .ok fs') : fs.Puts path b fs' := by
  obtain ⟨⟨holder, name⟩, found, written⟩ := bind_eq_ok_iff.mp written
  obtain ⟨ends, written⟩ := refuse_eq_ok_iff.mp written
  obtain ⟨p, entered, written⟩ := bind_eq_ok_iff.mp written
  obtain ⟨free, written⟩ := refuse_eq_ok_iff.mp written
  obtain rfl := Except.ok.inj written
  have located := locate_of_locateLast ends found entered
  refine ⟨⟨p, located, entry?_set free, fun q other => entry?_set_of_ne other⟩, ?_⟩
  rw [read, locate_set free located, ok_bind, entry?_set free]
  rfl

/-! ### Changes -/

theorem file?_eq_some_iff : fs.file? p = some b ↔ fs.entry? p = some (.file b) := by
  unfold file?
  split
  · rename_i found
    rw [found]
    simp
  · rename_i other
    exact iff_of_false nofun (other b)

/-- The changes are the files that are there now and were not. -/
theorem mem_changedSince_iff :
    (p, b) ∈ fs.changedSince fs' ↔ fs.file? p = some b ∧ isOutside p = false ∧ fs'.file? p ≠ some b := by
  rw [changedSince, List.mem_filterMap]
  constructor
  · rintro ⟨⟨q, e⟩, _, changed⟩
    dsimp only at changed
    split at changed
    · rename_i bytes found
      split at changed
      · cases changed
      · rename_i new
        cases changed
        rw [not_or, Bool.not_eq_true] at new
        exact ⟨found, new⟩
    · cases changed
  · rintro ⟨found, inside, new⟩
    have entry := file?_eq_some_iff.mp found
    unfold entry? at entry
    split at entry
    · cases entry
    obtain ⟨before, after, split, _⟩ := List.lookup_eq_some_iff.mp entry
    refine ⟨(p, .file b), by simp [split], ?_⟩
    dsimp only
    rw [found]
    dsimp only
    rw [if_neg (by simp [inside, new])]

/-- Writing changes the file that it is for, if that lies within and held other bytes. -/
theorem mem_changedSince_of_write (written : fs.write path b = .ok fs') :
    ∃ p, fs.locate path = .ok p ∧ ∀ q bytes, (q, bytes) ∈ fs'.changedSince fs ↔
      q = p ∧ bytes = b ∧ isOutside p = false ∧ fs.file? p ≠ some b := by
  obtain ⟨p, located, here, others⟩ := (puts_of_write written).place
  refine ⟨p, located, fun q bytes => ?_⟩
  rw [mem_changedSince_iff]
  by_cases same : q = p
  · subst same
    rw [file?_eq_some_iff.mpr here, Option.some.injEq]
    constructor
    · rintro ⟨rfl, inside, new⟩
      exact ⟨rfl, rfl, inside, new⟩
    · rintro ⟨_, rfl, inside, new⟩
      exact ⟨rfl, inside, new⟩
  · have kept : fs'.file? q = fs.file? q := by
      rw [file?, others q same, file?]
    rw [kept]
    exact iff_of_false (fun ⟨found, _, new⟩ => new found) fun ⟨here, _⟩ => same here

end FileSystem
end FlatTable

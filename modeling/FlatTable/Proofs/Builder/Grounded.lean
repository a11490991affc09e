import FlatTable.Proofs.Builder.History

/-! Histories in which objects refer only to older ones: what was created at a distance is known, and
the number of a table comes from those of the tables that it refers to. -/
namespace FlatTable

namespace Content

/-- What the object refers to has been created, and is of the right kind. -/
def Grounded (older : History) : Content → Prop
  | string _ | scalars _ _ => True
  | strings items => ∀ r ∈ items, ∃ text, older.content? r.rev = some (string text)
  | tables items => ∀ r ∈ items, ∃ a, older.content? r.rev = some (table a)
  | table a => ∀ (i : Nat) p, a.settings[i]? = some (some (.reference p)) →
      ∃ c, older.content? p.rev = some c ∧ c.kind = p.kind

end Content

namespace History

/-- Every object starts in front of all that were created before it, and refers only to those. -/
def Grounded : History → Prop
  | [] => True
  | c :: older => (∀ o ∈ older, o.rev < c.rev) ∧ c.content.Grounded older ∧ Grounded older

/-- What was created at a distance is the only object that was created there. -/
theorem Grounded.content?_eq_some_iff {h : History} (grounded : h.Grounded) {rev : Nat}
    {content : Content} : h.content? rev = some content ↔ ⟨rev, content⟩ ∈ h := by
  induction h with
  | nil => simp [content?]
  | cons c older ih =>
    obtain ⟨behind, _, rest⟩ := grounded
    rw [content?, List.find?_cons, List.mem_cons]
    cases same : c.rev == rev with
    | true =>
      have here : c.rev = rev := beq_iff_eq.mp same
      simp only [Option.map_some, Option.some.injEq]
      constructor
      · rintro rfl
        exact .inl (by rw [← here])
      · rintro (first | later)
        · rw [← first]
        · exact absurd here (Nat.ne_of_gt (behind _ later))
    | false =>
      have there : c.rev ≠ rev := beq_eq_false_iff_ne.mp same
      have tail := ih rest
      rw [content?] at tail
      rw [tail]
      constructor
      · exact .inr
      · rintro (first | later)
        · exact absurd (by rw [← first]) there
        · exact later

theorem Grounded.tableAt?_eq_some_iff {h : History} (grounded : h.Grounded) {rev id : Nat} :
    h.tableAt? rev = some id ↔ ∃ a, ⟨rev, .table a⟩ ∈ h ∧ a.table = id := by
  simp only [← grounded.content?_eq_some_iff, tableAt?]
  cases h.content? rev with
  | none => simp
  | some content => cases content <;> simp

/-- The objects older than one of a history. -/
private theorem Grounded.older {h : History} (grounded : h.Grounded) {c : Creation}
    (member : c ∈ h) : ∃ older : History, c.content.Grounded older ∧ older.Grounded ∧
      ∀ o ∈ older, o ∈ h ∧ o.rev < c.rev := by
  induction h with
  | nil => cases member
  | cons first rest ih =>
    obtain ⟨behind, here, tail⟩ := grounded
    rcases List.mem_cons.mp member with rfl | later
    · exact ⟨rest, here, tail, fun o found => ⟨List.mem_cons_of_mem _ found, behind o found⟩⟩
    · obtain ⟨older, content, olderGrounded, inRest⟩ := ih tail later
      exact ⟨older, content, olderGrounded, fun o found =>
        ⟨List.mem_cons_of_mem _ (inRest o found).1, (inRest o found).2⟩⟩

section
variable {h : History} (grounded : h.Grounded) {rev : Nat}
include grounded

theorem Grounded.reference {a : TableArgs} {i : Nat} {p : Placed}
    (member : ⟨rev, .table a⟩ ∈ h) (set : a.settings[i]? = some (some (.reference p))) :
    ∃ c, ⟨p.rev, c⟩ ∈ h ∧ c.kind = p.kind ∧ p.rev < rev := by
  obtain ⟨older, content, olderGrounded, inHistory⟩ := grounded.older member
  obtain ⟨c, found, kind⟩ := content i p set
  obtain ⟨known, before⟩ := inHistory _ (olderGrounded.content?_eq_some_iff.mp found)
  exact ⟨c, known, kind, before⟩

theorem Grounded.string {items : List (Ref .string)} {r : Ref .string}
    (member : ⟨rev, .strings items⟩ ∈ h) (inList : r ∈ items) :
    ∃ text, ⟨r.rev, .string text⟩ ∈ h ∧ r.rev < rev := by
  obtain ⟨older, content, olderGrounded, inHistory⟩ := grounded.older member
  obtain ⟨text, found⟩ := content r inList
  obtain ⟨known, before⟩ := inHistory _ (olderGrounded.content?_eq_some_iff.mp found)
  exact ⟨text, known, before⟩

theorem Grounded.table {items : List (Ref .table)} {r : Ref .table}
    (member : ⟨rev, .tables items⟩ ∈ h) (inList : r ∈ items) :
    ∃ a, ⟨r.rev, .table a⟩ ∈ h ∧ r.rev < rev := by
  obtain ⟨older, content, olderGrounded, inHistory⟩ := grounded.older member
  obtain ⟨a, found⟩ := content r inList
  obtain ⟨known, before⟩ := inHistory _ (olderGrounded.content?_eq_some_iff.mp found)
  exact ⟨a, known, before⟩

/-- What a setting refers to are tables, which were created no later than what it names. -/
theorem Grounded.of_mem_tablesOf {x : Option Setting} {r : Nat} (found : r ∈ h.tablesOf x) :
    ∃ p a, x = some (.reference p) ∧ ⟨r, .table a⟩ ∈ h ∧ r ≤ p.rev := by
  unfold tablesOf at found
  split at found
  · rename_i p
    split at found
    · rename_i a content
      obtain rfl : r = p.rev := by simpa using found
      exact ⟨p, a, rfl, grounded.content?_eq_some_iff.mp content, Nat.le_refl _⟩
    · rename_i items content
      obtain ⟨item, inList, rfl⟩ := List.mem_map.mp found
      obtain ⟨a, isTable, before⟩ :=
        grounded.table (grounded.content?_eq_some_iff.mp content) inList
      exact ⟨p, a, rfl, isTable, Nat.le_of_lt before⟩
    · cases found
  · cases found

/-- The tables that a table refers to were created before it. -/
theorem Grounded.mem_tablesOf {a : TableArgs} {x : Option Setting} {r : Nat}
    (member : ⟨rev, .table a⟩ ∈ h) (set : x ∈ a.settings.toList) (found : r ∈ h.tablesOf x) :
    ∃ a', ⟨r, .table a'⟩ ∈ h ∧ r < rev := by
  obtain ⟨p, a', rfl, isTable, notAfter⟩ := grounded.of_mem_tablesOf found
  obtain ⟨i, setting⟩ := List.mem_iff_getElem?.mp set
  rw [Array.getElem?_toList] at setting
  obtain ⟨_, _, _, before⟩ := grounded.reference member setting
  exact ⟨a', isTable, Nat.lt_of_le_of_lt notAfter before⟩

end

private theorem content?_cons {c : Creation} {h : History} {rev : Nat} (other : c.rev ≠ rev) :
    content? (c :: h) rev = h.content? rev := by
  rw [content?, List.find?_cons, beq_eq_false_iff_ne.mpr other]
  rfl

/-- A newer object does not change what a setting refers to. -/
private theorem tablesOf_cons {first : Creation} {h : History} (grounded : h.Grounded)
    (behind : ∀ o ∈ h, o.rev < first.rev) {x : Option Setting}
    (known : ∀ p, x = some (.reference p) → ∃ content, h.content? p.rev = some content) :
    tablesOf (first :: h) x = h.tablesOf x := by
  unfold tablesOf
  split
  · rename_i p
    obtain ⟨content, found⟩ := known p rfl
    have before := behind _ (grounded.content?_eq_some_iff.mp found)
    rw [content?_cons (Nat.ne_of_gt before)]
  · rfl

/-- A newer object does not change what older ones refer to, nor their numbers. -/
private theorem tallies_cons (c : Tally) {first : Creation} {h : History} (grounded : h.Grounded)
    (behind : ∀ o ∈ h, o.rev < first.rev) {settings : List (Option Setting)}
    (known : ∀ p, some (.reference p) ∈ settings → ∃ content, h.content? p.rev = some content) :
    (settings.flatMap (tablesOf (first :: h))).map (tally c (first :: h)) =
      (settings.flatMap h.tablesOf).map (h.tally c) := by
  have same : settings.flatMap (tablesOf (first :: h)) = settings.flatMap h.tablesOf :=
    List.flatMap_congr fun x member =>
      tablesOf_cons grounded behind fun p same => known p (same ▸ member)
  rw [same]
  apply List.map_congr_left
  intro r found
  obtain ⟨x, _, found⟩ := List.mem_flatMap.mp found
  obtain ⟨_, _, _, isTable, _⟩ := grounded.of_mem_tablesOf found
  rw [tally, if_neg (Nat.ne_of_gt (behind _ isTable))]

/-- The number of a table in terms of the whole history. -/
theorem Grounded.tally_eq (c : Tally) {h : History} (grounded : h.Grounded) {rev : Nat}
    {a : TableArgs} (member : ⟨rev, .table a⟩ ∈ h) :
    h.tally c rev = 1 + c.all ((a.settings.toList.flatMap h.tablesOf).map (h.tally c)) := by
  induction h with
  | nil => cases member
  | cons first older ih =>
    obtain ⟨behind, content, tail⟩ := grounded
    have index {p : Placed} (set : some (.reference p) ∈ a.settings.toList) :
        ∃ i : Nat, a.settings[i]? = some (some (.reference p)) := by
      obtain ⟨i, found⟩ := List.mem_iff_getElem?.mp set
      exact ⟨i, by rw [← Array.getElem?_toList, found]⟩
    rcases List.mem_cons.mp member with rfl | later
    · rw [tally, if_pos rfl, tallies_cons c tail behind]
      intro p set
      obtain ⟨i, found⟩ := index set
      obtain ⟨referred, known, _⟩ := content i p found
      exact ⟨referred, known⟩
    · rw [tally, if_neg (Nat.ne_of_gt (behind _ later)), ih tail later, tallies_cons c tail behind]
      intro p set
      obtain ⟨i, found⟩ := index set
      obtain ⟨referred, known, _⟩ := tail.reference later found
      exact ⟨referred, tail.content?_eq_some_iff.mpr known⟩

/-- The tables that a field refers to are what it is declared for. -/
theorem Typed.tableAt?_eq {s : Schema} {h : History} (typed : h.Typed s) {rev i id r : Nat}
    {a : TableArgs} {f : FieldDef} {x : Setting} (known : ⟨rev, .table a⟩ ∈ h)
    (field : s.field? a.table i = some f) (set : a.settings[i]? = some (some x))
    (tables : f.type.tables? = some id) (found : r ∈ h.tablesOf (some x)) :
    h.tableAt? r = some id := by
  have inside : i < a.settings.size := (Array.getElem?_eq_some_iff.mp set).1
  exact typed _ known i inside f field id tables r (by rwa [set])

/-- What a table was created for does not change with newer objects. -/
private theorem typed_content_cons {s : Schema} {first : Creation} {h : History}
    (grounded : h.Grounded) (behind : ∀ o ∈ h, o.rev < first.rev) {content : Content}
    (typed : content.Typed s h)
    (known : ∀ a, content = .table a → ∀ (i : Nat) p, a.settings[i]? = some (some (.reference p)) →
      ∃ c, h.content? p.rev = some c) : content.Typed s (first :: h) := by
  cases content with
  | string text | scalars t items | strings items | tables items => trivial
  | table a =>
    intro i inside f field id tables r found
    rw [tablesOf_cons grounded behind fun p same =>
      known a rfl i p (Option.join_eq_some_iff.mp same)] at found
    obtain ⟨_, _, _, isTable, _⟩ := grounded.of_mem_tablesOf found
    rw [tableAt?, content?_cons (Nat.ne_of_gt (behind _ isTable))]
    exact typed i inside f field id tables r found

/-- One more object whose references are as they should be. -/
theorem Typed.cons {s : Schema} {first : Creation} {h : History} (typed : h.Typed s)
    (grounded : Grounded (first :: h)) (here : first.content.Typed s h) : Typed s (first :: h) := by
  obtain ⟨behind, content, tail⟩ := grounded
  refine List.forall_mem_cons.mpr ⟨typed_content_cons tail behind here ?_, ?_⟩
  · intro a isTable i p set
    rw [isTable] at content
    obtain ⟨referred, found, _⟩ := content i p set
    exact ⟨referred, found⟩
  · intro e member
    refine typed_content_cons tail behind (typed e member) ?_
    intro a isTable i p set
    obtain ⟨rev, c⟩ := e
    obtain rfl : c = .table a := isTable
    obtain ⟨referred, known, _⟩ := tail.reference member set
    exact ⟨referred, tail.content?_eq_some_iff.mpr known⟩

end History
end FlatTable

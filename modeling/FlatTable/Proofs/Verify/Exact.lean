import Mathlib.Data.Set.Card
import FlatTable.Proofs.Verify.Accept

/-! Which buffers a verifier accepts, with its limits said of the chains of references that lead from
the root to tables: how long they are, and how many. -/
namespace FlatTable
open Layout

namespace Buffer

/-- The table that a chain of references leads to. Each number tells which of the references of the
table before it is taken. -/
def chain? (b : Buffer) (s : Schema) (t : Nat × Nat) : List Nat → Option (Nat × Nat)
  | [] => some t
  | i :: rest => (b.nested s t.1 t.2)[i]?.bind fun c => b.chain? s c rest

variable {b : Buffer} {s : Schema}

private theorem chain?_cons_isSome {t : Nat × Nat} {i : Nat} {rest : List Nat} :
    (b.chain? s t (i :: rest)).isSome ↔
      ∃ c, (b.nested s t.1 t.2)[i]? = some c ∧ (b.chain? s c rest).isSome := by
  rw [chain?]
  cases (b.nested s t.1 t.2)[i]? <;> simp

/-- Tables nest no deeper than `n` exactly if every chain has fewer references than that. -/
theorem depth_le_iff {n position id : Nat} :
    b.depth s position id ≤ n ↔
      ∀ path, (b.chain? s (position, id) path).isSome → path.length < n := by
  induction n generalizing position id with
  | zero =>
    rw [depth, tally_eq]
    constructor
    · omega
    · intro none
      exact absurd (none [] rfl) (Nat.not_lt_zero _)
  | succ n ih =>
    have nested : b.depth s position id ≤ n + 1 ↔
        ∀ c ∈ b.nested s position id, b.depth s c.1 c.2 ≤ n := by
      rw [depth, tally_eq, Nat.add_comm, Nat.add_le_add_iff_right, Tally.max_all_le_iff,
        List.forall_mem_map]
      rfl
    rw [nested]
    constructor
    · intro below path leads
      cases path with
      | nil => exact Nat.succ_pos n
      | cons i rest =>
        obtain ⟨c, next, leads⟩ := chain?_cons_isSome.mp leads
        exact Nat.succ_lt_succ (ih.mp (below c (List.mem_of_getElem? next)) rest leads)
    · intro short c member
      obtain ⟨i, next⟩ := List.mem_iff_getElem?.mp member
      refine ih.mpr fun rest leads => ?_
      exact Nat.lt_of_succ_lt_succ (short (i :: rest) (chain?_cons_isSome.mpr ⟨c, next, leads⟩))

/-- All chains from a table, each once. -/
private theorem exists_chains (position id : Nat) :
    ∃ l : List (List Nat), l.Nodup ∧ (∀ path, path ∈ l ↔ (b.chain? s (position, id) path).isSome) ∧
      l.length = b.visits s position id := by
  induction left : b.size - position using Nat.strongRecOn generalizing position id with
  | ind left ih =>
    subst left
    have below (c : Nat × Nat) : ∃ l : List (List Nat), c ∈ b.nested s position id →
        l.Nodup ∧ (∀ path, path ∈ l ↔ (b.chain? s c path).isSome) ∧
          l.length = b.visits s c.1 c.2 := by
      by_cases member : c ∈ b.nested s position id
      · obtain ⟨behind, inside⟩ := lt_of_mem_nested member
        obtain ⟨l, chains⟩ := ih _ (by omega) c.1 c.2 rfl
        exact ⟨l, fun _ => chains⟩
      · exact ⟨[], fun given => absurd given member⟩
    choose chains spec using below
    refine ⟨[] :: (b.nested s position id).zipIdx.flatMap fun n => (chains n.1).map (n.2 :: ·),
      ?_, ?_, ?_⟩
    · refine List.nodup_cons.mpr ⟨by simp, List.nodup_flatMap.mpr ⟨?_, ?_⟩⟩
      · intro n member
        have inList := List.mem_iff_getElem?.mpr ⟨_, List.mem_zipIdx_iff_getElem?.mp member⟩
        exact (spec n.1 inList).1.map (List.cons_injective (a := n.2))
      · -- chains that begin with different references are different
        have indices : ((b.nested s position id).zipIdx.map Prod.snd).Nodup := by
          rw [List.zipIdx_map_snd]
          exact List.nodup_range'
        refine (List.pairwise_map.mp indices).imp fun {n m} different => ?_
        intro path inFirst inSecond
        obtain ⟨_, _, rfl⟩ := List.mem_map.mp inFirst
        obtain ⟨_, _, same⟩ := List.mem_map.mp inSecond
        exact different (List.cons.inj same).1.symm
    · intro path
      cases path with
      | nil => simp [chain?]
      | cons i rest =>
        rw [chain?_cons_isSome, List.mem_cons, List.mem_flatMap]
        constructor
        · rintro (empty | ⟨n, member, inList⟩)
          · cases empty
          · obtain ⟨rest', leads, same⟩ := List.mem_map.mp inList
            obtain ⟨rfl, rfl⟩ := List.cons.inj same
            have next := List.mem_zipIdx_iff_getElem?.mp member
            exact ⟨n.1, next, ((spec n.1 (List.mem_of_getElem? next)).2.1 _).mp leads⟩
        · intro given
          obtain ⟨c, next, leads⟩ := given
          exact .inr ⟨(c, i), List.mem_zipIdx_iff_getElem?.mpr next,
            List.mem_map.mpr ⟨rest, ((spec c (List.mem_of_getElem? next)).2.1 _).mpr leads, rfl⟩⟩
    · have lengths : (b.nested s position id).zipIdx.map (fun n => (chains n.1).length) =
          (b.nested s position id).map fun c => b.visits s c.1 c.2 := by
        calc
          _ = ((b.nested s position id).zipIdx.map Prod.fst).map fun c => (chains c).length := by
            rw [List.map_map]; rfl
          _ = (b.nested s position id).map fun c => (chains c).length := by rw [List.zipIdx_map_fst]
          _ = _ := List.map_congr_left fun c member => (spec c member).2.2
      rw [List.length_cons, List.length_flatMap, visits, tally_eq, Nat.add_comm]
      simp only [List.length_map, lengths]
      rfl

/-- A walk meets tables as often as there are chains. -/
theorem encard_chains (position id : Nat) :
    {path | (b.chain? s (position, id) path).isSome}.encard = b.visits s position id := by
  obtain ⟨l, distinct, chains, length⟩ := exists_chains (b := b) (s := s) position id
  have same : {path | (b.chain? s (position, id) path).isSome} = {path | path ∈ l} :=
    Set.ext fun path => (chains path).symm
  have counted : (l.toFinset : Set (List Nat)) = {path | path ∈ l} :=
    Set.ext fun path => by simp
  rw [same, ← counted, Set.encard_coe_eq_coe_finsetCard, List.toFinset_card_of_nodup distinct,
    length]

end Buffer

namespace Verifier
variable {v : Verifier} {b : Buffer} {root : Root}

/-- What a buffer must be to be accepted with this root, without an order of checks: its size is one
that is allowed, the identifier is there if one is required, the root is a table of the schema that
was asked for and well formed, and the chains of references from the root are short and few enough. -/
structure Acceptable (v : Verifier) (b : Buffer) (root : Root) : Prop where
  atLeast : offsetSize + (if v.identifier.isSome then identifierSize else 0) ≤ b.size
  atMost : b.size ≤ v.options.maxBufferSize
  identified : ∀ identifier, v.identifier = some identifier → b.hasIdentifier identifier.bytes
  asked : v.rootTable.or v.schema.rootTable? = some root.table
  known : root.table < v.schema.tables.size
  reference : (v.walk b).RefersTo 0 root.position
  wellFormed : (v.walk b).WellFormed root.position root.table
  shallow : ∀ path, (b.chain? v.schema (root.position, root.table) path).isSome →
    path.length < v.options.maxDepth
  few : {path | (b.chain? v.schema (root.position, root.table) path).isSome}.encard ≤
    v.options.maxTables

private theorem header_iff :
    v.Header b ↔
      offsetSize + (if v.identifier.isSome then identifierSize else 0) ≤ b.size ∧
        b.size ≤ v.options.maxBufferSize ∧
          ∀ identifier, v.identifier = some identifier → b.hasIdentifier identifier.bytes := by
  have equal : v.Header b ↔ b.size ≤ v.options.maxBufferSize ∧ offsetSize + v.tag.length ≤ b.size ∧
      b.slice? offsetSize v.tag.length = some v.tag :=
    ⟨fun h => ⟨h.small, h.large, h.tagged⟩, fun given => ⟨given.1, given.2.1, given.2.2⟩⟩
  rw [equal, tag]
  cases v.identifier with
  | none =>
    simp only [Option.map_none, Option.getD_none, List.length_nil, Option.isSome_none,
      Bool.false_eq_true, if_false, Nat.add_zero]
    constructor
    · intro given
      exact ⟨given.2.1, given.1, by simp⟩
    · intro given
      obtain ⟨large, small, _⟩ := given
      exact ⟨small, large, by simp [Buffer.slice?, large]⟩
  | some identifier =>
    simp only [Option.map_some, Option.getD_some, Option.isSome_some, if_true, Option.some.injEq,
      identifier.length_eq, forall_eq', Buffer.hasIdentifier, Buffer.identifier?, beq_iff_eq]
    exact and_left_comm

private theorem lt_of_rootTable? {s : Schema} {id : Nat} (h : s.rootTable? = some id) :
    id < s.tables.size := by
  unfold Schema.rootTable? at h
  split at h
  · split at h
    · cases h
      assumption
    · cases h
  · split at h
    · cases h
    · rename_i declared
      have positive : 0 < s.tables.size := by
        rw [Nat.pos_iff_ne_zero, ne_eq, Array.size_eq_zero_iff]
        simpa using declared
      cases h
      omega

theorem root?_eq_some_iff {id : Nat} :
    v.root? = some id ↔
      v.rootTable.or v.schema.rootTable? = some id ∧ id < v.schema.tables.size := by
  unfold root?
  cases v.rootTable with
  | none =>
    rw [Option.none_or]
    exact ⟨fun h => ⟨h, lt_of_rootTable? h⟩, And.left⟩
  | some asked =>
    simp only [Option.some_or, Option.some.injEq]
    constructor
    · intro h
      split at h
      · cases h
        exact ⟨rfl, by assumption⟩
      · cases h
    · intro given
      obtain ⟨rfl, known⟩ := given
      exact if_pos known

/-- A verifier answers with a root exactly for the buffers that are what it accepts. -/
theorem verify_eq_ok_iff_acceptable : v.verify b = .ok root ↔ v.Acceptable b root := by
  rw [verify_eq_ok_iff, header_iff, root?_eq_some_iff, Buffer.depth_le_iff]
  have visits : b.visits v.schema root.position root.table ≤ v.options.maxTables ↔
      {path | (b.chain? v.schema (root.position, root.table) path).isSome}.encard ≤
        v.options.maxTables := by
    rw [Buffer.encard_chains, Nat.cast_le]
  rw [visits]
  constructor
  · intro given
    obtain ⟨⟨large, small, tagged⟩, ⟨asked, known⟩, reference, wellFormed, shallow, few⟩ := given
    exact ⟨large, small, tagged, asked, known, reference, wellFormed, shallow, few⟩
  · intro h
    exact ⟨⟨h.atLeast, h.atMost, h.identified⟩, ⟨h.asked, h.known⟩, h.reference, h.wellFormed,
      h.shallow, h.few⟩

end Verifier
end FlatTable

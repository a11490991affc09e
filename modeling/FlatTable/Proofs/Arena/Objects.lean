import FlatTable.Proofs.Arena.Mirrors

/-! A builder that checks itself writes strings, vectors and structs as a builder does. -/
namespace FlatTable
open Layout Build

namespace Builder
variable {b : Builder}

/-! ### Strings and vectors -/

theorem createString_mirrors (text : String) :
    b.Mirrors (Arena.createString text) (createString text) := by
  unfold Arena.createString createString
  refine (align_mirrors _ _).bind fun _ b₁ _ => ?_
  refine (Mirrors.store (by simp) fun free requests old room => ?_).bind fun _ _ _ =>
    (pushWord_mirrors _).bind fun _ _ _ => place_mirrors _
  generalize Text.encodeUtf8 text = bytes at *
  rw [List.length_append, List.length_singleton] at room
  have front : Fills { b₁ with free, requests } (old.take bytes.length ++ old.drop bytes.length)
      (bytes ++ old.drop bytes.length) (Arena.write free.size (free.size + bytes.length) bytes) :=
    .write_front rfl (by rw [List.length_take]; omega)
  have back : Fills { b₁ with free, requests } (bytes ++ old.drop bytes.length) (bytes ++ [0])
      (Arena.write (free.size + bytes.length) (free.size + bytes.length + 1) [0]) :=
    .write_back rfl rfl (by rw [List.length_drop, room]; simp)
  rw [List.take_append_drop] at front
  exact front.bind back

theorem createVector_mirrors (t : ScalarType) (items : List Value) :
    b.Mirrors (Arena.createVector t items) (createVector t items) := by
  unfold Arena.createVector createVector
  cases mixed : items.find? fun v => v.type != t with
  | some bad => exact .of_throw _
  | none =>
    have typed (part : List UInt8) (member : part ∈ items.map Value.bytes) : part.length = t.width := by
      obtain ⟨v, inItems, rfl⟩ := List.mem_map.mp member
      have same : v.type = t := by simpa using List.find?_eq_none.mp mixed v inItems
      rw [v.length_bytes, same]
    have length : (items.flatMap Value.bytes).length = items.length * t.width :=
      length_flatMap fun v member => typed _ (List.mem_map_of_mem member)
    dsimp only
    rw [length]
    refine (align_mirrors _ _).bind fun _ _ _ =>
      (Mirrors.store length fun free requests old room => ?_).bind fun _ _ _ =>
        (pushWord_mirrors _).bind fun _ _ _ => place_mirrors _
    rw [List.flatMap_def]
    exact .inRow typed (by rw [room, length, List.length_map])

theorem checkElements_mirrors (target : ObjectKind) (items : List Placed) :
    b.Mirrors (Arena.checkElements target items) (checkElements target items) := by
  induction items generalizing b with
  | nil => exact .of_pure _
  | cons p items ih =>
    unfold Arena.checkElements checkElements
    refine (checkPlaced_mirrors p).bind fun _ b' _ => ?_
    dsimp only
    split
    · exact .of_throw _
    · exact ih

private theorem references_mirrors {items : List Placed} (behind : ∀ p ∈ items, b.Behind p.rev) :
    b.Mirrors (items.forM fun p => Arena.pushReference p.rev)
      (items.forM fun p => pushReference p.rev) := by
  induction items generalizing b with
  | nil => exact .of_pure _
  | cons p items ih =>
    obtain ⟨first, rest⟩ := List.forall_mem_cons.mp behind
    rw [List.forM_eq_forM, List.forM_eq_forM, List.forM_cons, List.forM_cons]
    refine (pushReference_mirrors first).bind_does (pushReference_does p.rev) fun _ _ stored => ?_
    exact ih fun q member => (rest q member).kept stored.1.grown.keeps

/-- What is placed is behind. -/
theorem createReferenceVector_mirrors (placed : ∀ p ∈ b.placed, b.Behind p.rev) (element : ElementKind)
    (target : ObjectKind) (items : List Placed) :
    b.Mirrors (Arena.createReferenceVector element target items)
      (createReferenceVector element target items) := by
  refine (checkElements_mirrors target items).bind_does (checkElements_does target items) fun _ b₁ given => ?_
  obtain ⟨rfl, known⟩ := given
  refine (align_mirrors _ _).bind_does (align_does (by decide)) fun _ b₂ aligned => ?_
  refine (references_mirrors fun p member => ?_).bind fun _ _ _ =>
    (pushWord_mirrors _).bind fun _ _ _ => place_mirrors _
  exact (placed p (known p (List.mem_reverse.mp member)).1).kept aligned.1.keeps

/-! ### Structs -/

/-- Over zeros the members of a struct are written where the layout puts them. -/
private theorem fills_members {values : List Value} {ms : List Member}
    (types : values.map Value.type = ms.map Member.type) (front : List UInt8) {pos n : Nat}
    (start : front.length = pos) (room : (structBytesFrom pos values).length ≤ n) :
    b.Fills (front ++ List.replicate n 0)
      (front ++ (structBytesFrom pos values ++
        List.replicate (n - (structBytesFrom pos values).length) 0))
      (Arena.writeParts b.free.size ((values.zip (StructDef.offsetsFrom pos ms)).map
        fun (v, offset) => (offset, v.width, v.bytes))) := by
  induction values generalizing pos n front ms with
  | nil => exact .of_pure b _
  | cons v values ih =>
    cases ms with
    | nil => cases types
    | cons m ms =>
      obtain ⟨type, rest⟩ := List.cons.inj types
      have width : v.bytes.length = m.type.width := by rw [v.length_bytes, ← type]
      have body : structBytesFrom pos (v :: values) = List.replicate (padding pos m.type.width) 0 ++
          (v.bytes ++ structBytesFrom (pos + padding pos m.type.width + m.type.width) values) := by
        rw [structBytesFrom, Value.width, type, List.append_assoc]
      have offsets : StructDef.offsetsFrom pos (m :: ms) = (pos + padding pos m.type.width) ::
          StructDef.offsetsFrom (pos + padding pos m.type.width + m.type.width) ms := rfl
      rw [body] at room ⊢
      rw [offsets]
      generalize padding pos m.type.width = pad at *
      generalize more : structBytesFrom (pos + pad + m.type.width) values = bytes at *
      simp only [List.length_append, List.length_replicate, width] at room
      have zeros : List.replicate n (0 : UInt8) = List.replicate pad 0 ++
          (List.replicate m.type.width 0 ++ List.replicate (n - pad - m.type.width) 0) := by
        rw [List.replicate_append_replicate, List.replicate_append_replicate]
        congr 1
        omega
      have here : b.Fills (front ++ List.replicate pad 0 ++
            (List.replicate m.type.width 0 ++ List.replicate (n - pad - m.type.width) 0))
          (front ++ List.replicate pad 0 ++ (v.bytes ++ List.replicate (n - pad - m.type.width) 0))
          (Arena.write (b.free.size + (pos + pad)) (b.free.size + (pos + pad) + v.width) v.bytes) :=
        .write (by rw [List.length_append, List.length_replicate, start]) (by rw [v.length_bytes]; rfl)
          (by rw [List.length_replicate, width])
      have starts : (front ++ List.replicate pad 0 ++ v.bytes).length = pos + pad + m.type.width := by
        simp only [List.length_append, List.length_replicate, width, start]
      have remains : (structBytesFrom (pos + pad + m.type.width) values).length ≤
          n - pad - m.type.width := by
        rw [more]
        omega
      have later := ih rest _ starts remains
      rw [more] at later
      have left : n - pad - m.type.width - bytes.length =
          n - (List.replicate pad (0 : UInt8) ++ (v.bytes ++ bytes)).length := by
        simp only [List.length_append, List.length_replicate, width]
        omega
      rw [left] at later
      rw [zeros]
      simp only [List.append_assoc] at here later ⊢
      exact here.bind later

theorem pushStruct_mirrors {d : StructDef} {values : List Value}
    (types : values.map Value.type = d.members.map Member.type) :
    b.Mirrors (Arena.pushStruct d values) (pushStruct d values) := by
  have length := length_structBytes types
  have room : (structBytesFrom 0 values).length ≤ d.size := by
    rw [structBytes, List.length_append] at length
    omega
  refine (align_mirrors _ _).bind fun _ b₁ _ => .store length fun free requests old enough => ?_
  change old.length = (structBytes d values).length at enough
  rw [length] at enough
  have cleared : Fills { b₁ with free, requests } old (List.replicate d.size 0)
      (Arena.write free.size (free.size + d.size) (List.replicate d.size 0)) :=
    .write_all (by rw [List.length_replicate]) (by rw [List.length_replicate, enough])
  refine cleared.bind ?_
  have members := fills_members types [] rfl room (b := { b₁ with free, requests })
  exact members

end Builder
end FlatTable

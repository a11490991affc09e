import FlatTable.Proofs.Builder.Tables

/-! The padding at the end of a buffer that is being built. Whatever is asked of the builder, and whether it
fails or not, the padding is used and stays zero. -/
namespace FlatTable
open Layout Build

namespace Builder
variable {b b' : Builder}

def Padded (b : Builder) : Prop := List.replicate b.trailingPad 0 <:+ b.used.bytes

theorem Padded.push (h : b.Padded) (bytes : List UInt8) : Padded { b with used := b.used.push bytes } :=
  List.suffix_append_of_suffix h

/-- What is in front of the padding may be written anew. -/
theorem Padded.overwrite (h : b.Padded) {pos : Nat} {bytes : List UInt8}
    (before : pos + bytes.length + b.trailingPad ≤ b.used.bytes.length) :
    Padded { b with used := b.used.overwrite pos bytes } := by
  have inside : pos + bytes.length ≤ b.used.size := by
    rw [b.used.size_eq]
    omega
  have rest : List.replicate b.trailingPad 0 <:+ b.used.bytes.drop (pos + bytes.length) := by
    refine List.suffix_of_suffix_length_le h (List.drop_suffix _ _) ?_
    rw [List.length_replicate, List.length_drop]
    omega
  rw [Padded, Block.overwrite, dif_pos inside]
  exact List.suffix_append_of_suffix rest

/-! ### Small steps -/

private theorem claim_pads (want : Nat) (h : b.Padded) : (claim want).Leaves b Padded := by
  obtain ⟨free, requests, same⟩ := makeRoom_snd want b
  unfold claim
  refine Leaves.get_bind ?_
  dsimp only
  split
  · exact .throw_bind h
  · cases made : makeRoom want b with
    | mk result b' =>
      rw [made] at same
      obtain rfl : b' = { b with free, requests } := same
      cases result <;> exact h

theorem push_pads (bytes : List UInt8) (h : b.Padded) : (push bytes).Leaves b Padded :=
  (claim_pads _ h).bind fun _ _ _ h' => .of_modify (h'.push bytes)

theorem reserve_pads (count : Nat) (h : b.Padded) : (reserve count).Leaves b Padded :=
  (claim_pads _ h).bind fun old _ _ h' => .of_modify (h'.push old)

/-- What is padded before anything is used is the padding at the end. -/
theorem align_pads (length alignment : Nat) (h : b.Padded) : (align length alignment).Leaves b Padded := by
  unfold align
  have raised : (modify fun b => { b with minAlign := max b.minAlign alignment } : Build PUnit).Leaves
      b Padded := .of_modify h
  refine raised.bind fun _ b₁ _ h₁ => Leaves.get_bind ?_
  dsimp only
  split
  · refine (push_pads _ h₁).bind_does (push_does _) fun _ b₂ pushed h₂ => ?_
    split
    · rename_i empty
      have none : b₁.used.bytes = [] := List.eq_nil_of_length_eq_zero (b₁.used.size_eq ▸ empty)
      have used := pushed.1.used
      rw [none, List.append_nil] at used
      have zeros : List.replicate (padding (b₁.used.size + length) alignment) 0 <:+ b₂.used.bytes :=
        used ▸ List.suffix_rfl
      exact .of_modify zeros
    · exact .of_pure h₂
  · exact .of_pure h₁

theorem pushWord_pads (n : Nat) (h : b.Padded) : (pushWord n).Leaves b Padded :=
  (align_pads _ _ h).bind fun _ _ _ => push_pads _

theorem place_pads (kind : ObjectKind) (h : b.Padded) : (place kind).Leaves b Padded := h

theorem checkPlaced_pads (p : Placed) (h : b.Padded) : (checkPlaced p).Leaves b Padded := by
  refine Leaves.get_bind ?_
  split
  · exact .of_throw h
  · exact .of_pure h

theorem pushReference_pads (rev : Nat) (h : b.Padded) : (pushReference rev).Leaves b Padded := by
  refine (align_pads _ _ h).bind fun _ b' _ h' => Leaves.get_bind ?_
  dsimp only
  split
  · exact .of_throw h'
  · exact push_pads _ h'

/-! ### Strings and vectors -/

/-- The length in front of an object that is then placed. -/
private theorem counted_pads (n : Nat) (kind : ObjectKind) (h : b.Padded) :
    (pushWord n >>= fun _ => place kind).Leaves b Padded :=
  (pushWord_pads n h).bind fun _ _ _ => place_pads kind

theorem createString_pads (text : String) (h : b.Padded) : (createString text).Leaves b Padded :=
  (align_pads _ _ h).bind fun _ _ _ h' => (push_pads _ h').bind fun _ _ _ => counted_pads _ _

theorem createVector_pads (t : ScalarType) (items : List Value) (h : b.Padded) :
    (createVector t items).Leaves b Padded := by
  unfold createVector
  split
  · exact .of_throw h
  · exact (align_pads _ _ h).bind fun _ _ _ h' => (push_pads _ h').bind fun _ _ _ => counted_pads _ _

private theorem checkElements_pads (target : ObjectKind) (items : List Placed) (h : b.Padded) :
    (checkElements target items).Leaves b Padded := by
  induction items generalizing b with
  | nil => exact .of_pure h
  | cons p items ih =>
    unfold checkElements
    refine (checkPlaced_pads p h).bind fun _ _ _ h' => ?_
    dsimp only
    split
    · exact .throw_bind h'
    · exact ih h'

theorem createReferenceVector_pads (element : ElementKind) (target : ObjectKind) (items : List Placed)
    (h : b.Padded) : (createReferenceVector element target items).Leaves b Padded := by
  unfold createReferenceVector
  refine (checkElements_pads target items h).bind fun _ _ _ h₁ => ?_
  refine (align_pads _ _ h₁).bind fun _ _ _ h₂ => ?_
  have pushed : (items.reverse.forM fun p => pushReference p.rev).Leaves _ Padded :=
    Leaves.forM h₂ fun p _ => pushReference_pads p.rev
  exact pushed.bind fun _ _ _ => counted_pads _ _

/-! ### Tables -/

private theorem checkSetting_pads (x : Option Setting) (h : b.Padded) : (checkSetting x).Leaves b Padded := by
  unfold checkSetting
  split
  · exact checkPlaced_pads _ h
  · exact .of_pure h

private theorem pushSetting_pads (a : TableArgs) (t : TableDef) (i : Nat) (x : Setting) (h : b.Padded) :
    (pushSetting a t i x).Leaves b Padded := by
  unfold pushSetting
  cases x with
  | scalar v =>
    refine Leaves.get_bind ?_
    split
    · exact .of_pure h
    · exact ((align_pads _ _ h).bind fun _ _ _ => push_pads _).bind fun _ _ _ => .of_pure
  | reference p => exact (pushReference_pads p.rev h).bind fun _ _ _ => .of_pure
  | struct values =>
    dsimp only
    split
    · exact .of_throw h
    · exact ((align_pads _ _ h).bind fun _ _ _ => push_pads _).bind fun _ _ _ => .of_pure

private theorem pushSettings_pads (a : TableArgs) (t : TableDef) (entries : List (Option Setting × Nat))
    (written : List (Nat × Nat)) (h : b.Padded) : (pushSettings a t entries written).Leaves b Padded := by
  induction entries generalizing b written with
  | nil => exact h
  | cons entry rest ih =>
    obtain ⟨x, i⟩ := entry
    cases x with
    | none => exact ih written h
    | some x =>
      unfold pushSettings
      refine (pushSetting_pads a t i x h).bind fun stored b' _ h' => ?_
      cases stored with
      | true => exact Leaves.get_bind (ih _ h')
      | false => exact ih _ h'

/-- The distance to the vtable is written anew within the table. -/
private theorem pushVtable_pads (entries : List Nat) (h : b.Padded)
    (room : offsetSize + b.trailingPad ≤ b.used.bytes.length) :
    (pushVtable b.used.size entries).Leaves b Padded := by
  unfold pushVtable
  split
  · exact .of_throw h
  · refine (align_pads _ _ h).bind_does (align_does (by decide)) fun _ b₁ aligned h₁ => ?_
    refine (push_pads _ h₁).bind_does (push_does _) fun _ b₂ pushed h₂ => Leaves.get_bind (.of_modify ?_)
    have used : b.used.bytes ≠ [] := by
      simp only [offsetSize] at room
      exact List.ne_nil_of_length_pos (by omega)
    have pad : b₂.trailingPad = b.trailingPad := pushed.2.1.trans (aligned.1.trailingPad used)
    have longer := (aligned.1.trans pushed.1).length
    refine h₂.overwrite ?_
    rw [Bytes.length_encode, pad, b₂.used.size_eq, b.used.size_eq]
    omega

theorem createTable_pads (a : TableArgs) (h : b.Padded) : (createTable a).Leaves b Padded := by
  unfold createTable
  split
  · exact .of_throw h
  · refine (Leaves.forM h fun x _ => checkSetting_pads x).bind fun _ b₀ _ h₀ => Leaves.get_bind ?_
    refine (pushSettings_pads a _ _ _ h₀).bind fun _ b₁ _ h₁ => ?_
    refine (align_pads _ _ h₁).bind fun _ b₂ _ h₂ => ?_
    refine (reserve_pads _ h₂).bind_does (reserve_does _) fun _ b₃ reserved h₃ => Leaves.get_bind ?_
    dsimp only
    split
    · exact .throw_bind h₃
    split
    · exact .throw_bind h₃
    obtain ⟨old, length, grown, pad⟩ := reserved
    refine (pushVtable_pads _ h₃ ?_).bind fun _ _ _ h₄ => (Leaves.of_modify h₄).bind fun _ _ _ => .of_pure
    have inUsed := h₂.length_le
    rw [List.length_replicate] at inUsed
    rw [grown.length, length, pad]
    omega

/-! ### Finishing -/

theorem finish_pads (root : Ref .table) (identifier : Option Identifier) (h : b.Padded) :
    (finish root identifier).Leaves b Padded := by
  unfold finish pushRoot
  refine Leaves.bind ?_ fun _ _ _ h' => Leaves.get_bind (.of_pure h')
  refine (checkPlaced_pads _ h).bind fun _ _ _ h₁ => Leaves.get_bind ?_
  refine (align_pads _ _ h₁).bind fun _ _ _ h₂ => ?_
  split
  · exact (push_pads _ h₂).bind fun _ _ _ => pushReference_pads _
  · exact pushReference_pads _ h₂

end Builder
end FlatTable

import FlatTable.Proofs.Builder.Built
import FlatTable.Proofs.Builder.Returned

/-! Runs of a builder of which anything may be asked, with what they create, and how far each object reaches
as the buffer tells. -/
namespace FlatTable
open Layout Build

def Builder.Request.content : Builder.Request → Content
  | string text => .string text
  | vector t items => .scalars t items
  | references .table _ items => .tables (items.map fun p => ⟨p.rev⟩)
  | references _ _ items => .strings (items.map fun p => ⟨p.rev⟩)
  | table a => .table a

inductive Operation
  | request (r : Builder.Request)
  | force (on : Bool)

/-! ### How far objects reach -/

/-- How many bytes an object has that starts at a position, as the buffer tells: a string up to its zero, a
vector up to its last element, and a table as many as its vtable says. -/
def Content.extent? (d : Buffer) (pos : Nat) : Content → Option Nat
  | string _ => (d.nat? pos offsetSize).map fun n => offsetSize + (n + 1)
  | scalars t _ => (d.nat? pos offsetSize).map fun n => offsetSize + n * t.width
  | strings _ | tables _ => (d.nat? pos offsetSize).map fun n => offsetSize + n * offsetSize
  | table _ => (d.vtable? pos).bind fun vtable => d.nat? (vtable + slotSize) slotSize

namespace Builder
variable {b b' : Builder} {c : Creation} {n : Nat}

/-- The object is there as a whole. What the fields of a table hold is left open. -/
def Framed (b : Builder) (c : Creation) : Prop :=
  match c.content with
  | .string s => b.StringLaid c.rev s
  | .scalars t items => b.ScalarsLaid c.rev t items
  | .strings items | .tables items => b.ReferencesLaid c.rev (items.map Ref.rev)
  | .table _ => ∃ start slots, b.TableFramed c.rev start slots

theorem Laid.framed (h : b.Laid c) : b.Framed c := by
  obtain ⟨rev, content⟩ := c
  cases content with
  | string s | scalars t items | strings items | tables items => exact h
  | table a =>
    obtain ⟨start, slots, laid⟩ := h
    exact ⟨start, slots, laid.framed⟩

theorem Framed.kept (h : b.Framed c) (keeps : b.Keeps b') : b'.Framed c := by
  obtain ⟨rev, content⟩ := c
  cases content with
  | string s => exact StringLaid.kept h keeps
  | scalars t items => exact ScalarsLaid.kept h keeps
  | strings items | tables items => exact ReferencesLaid.kept h keeps
  | table a =>
    obtain ⟨start, slots, framed⟩ := h
    exact ⟨start, slots, framed.kept keeps⟩

theorem Framed.aligned (h : b.Framed c) : offsetSize ∣ c.rev := by
  obtain ⟨rev, content⟩ := c
  cases content with
  | string s => exact StringLaid.aligned h
  | scalars t items => exact ScalarsLaid.aligned h
  | strings items | tables items => exact ReferencesLaid.aligned h
  | table a =>
    obtain ⟨start, slots, framed⟩ := h
    exact framed.aligned

/-- What is no table has as many bytes as its content takes. -/
theorem Framed.extent?_of_size? (h : b.Framed c) (sound : b.Sound) (known : c.content.size? = some n) :
    c.content.extent? b.finished.data (b.positionOf c.rev) = some n := by
  obtain ⟨rev, content⟩ := c
  cases content with
  | string s =>
    cases known
    exact congrArg (Option.map _) (StringLaid.counted h sound)
  | scalars t items =>
    cases known
    exact congrArg (Option.map _) (ScalarsLaid.nat? h sound)
  | strings items | tables items =>
    cases known
    have counted := ReferencesLaid.nat? h sound
    rw [List.length_map] at counted
    exact congrArg (Option.map _) counted
  | table a => cases known

theorem TableFramed.extent? {object start : Nat} {slots : List Nat} (h : b.TableFramed object start slots)
    (a : TableArgs) :
    (Content.table a).extent? b.finished.data (b.positionOf object) = some (object - start) := by
  rw [Content.extent?, h.vtable?, Option.bind_some, h.size]

/-- Every object has some bytes, and none of them is padding of the buffer. -/
theorem Framed.exists_extent (h : b.Framed c) (sound : b.Sound) :
    ∃ n, c.content.extent? b.finished.data (b.positionOf c.rev) = some n ∧ 0 < n ∧
      b.positionOf c.rev + n ≤ b.finished.data.size := by
  have block {size : Nat} (known : c.content.size? = some size)
      (inside : b.positionOf c.rev + size ≤ b.finished.data.size) (positive : 0 < size) :
      ∃ n, c.content.extent? b.finished.data (b.positionOf c.rev) = some n ∧ 0 < n ∧
        b.positionOf c.rev + n ≤ b.finished.data.size :=
    ⟨size, h.extent?_of_size? sound known, positive, inside⟩
  have counted (size : Nat) : 0 < offsetSize + size := Nat.add_pos_left (by decide) _
  obtain ⟨rev, content⟩ := c
  cases content with
  | string s =>
    have laid : b.StringLaid rev s := h
    have before := laid.held.before
    have inFront := laid.held.le
    simp only [List.length_append, Bytes.length_encode, List.length_singleton] at before
    refine block rfl ?_ (counted _)
    rw [size_data]
    simp only [positionOf]
    omega
  | scalars t items =>
    exact block rfl (Nat.add_assoc _ _ _ ▸ ScalarsLaid.inside h) (counted _)
  | strings items | tables items =>
    have inside := ReferencesLaid.inside h
    rw [List.length_map, Nat.add_assoc] at inside
    exact block rfl inside (counted _)
  | table a =>
    obtain ⟨start, slots, framed⟩ : ∃ start slots, b.TableFramed rev start slots := h
    have room := framed.room
    have before := framed.before
    have inFront := framed.back.le
    simp only [offsetSize] at room
    refine ⟨_, framed.extent? a, by omega, ?_⟩
    rw [size_data]
    simp only [positionOf]
    omega

/-- Each request creates an object that is there as a whole. What is no table has its bytes in front of those
that were used before. -/
theorem Request.steps_frames (request : Request) (sound : b.Sound) : request.steps.Does b fun p b' =>
    b.Creates b' p.rev p.kind ∧ b'.Framed ⟨p.rev, request.content⟩ ∧
      ∀ size, request.content.size? = some size → b.used.bytes.length + size ≤ p.rev := by
  have placed {kind : ObjectKind} {steps : Build (Ref kind)} {content : Content}
      (does : steps.Does b fun r b' => b.Creates b' r.rev kind ∧ b'.Framed ⟨r.rev, content⟩ ∧
        ∀ size, content.size? = some size → b.used.bytes.length + size ≤ r.rev) :
      (do return (← steps).placed : Build Placed).Does b fun p b' => b.Creates b' p.rev p.kind ∧
        b'.Framed ⟨p.rev, content⟩ ∧
          ∀ size, content.size? = some size → b.used.bytes.length + size ≤ p.rev :=
    does.bind_pure fun _ _ h => h
  cases request with
  | string text =>
    refine placed ((createString_does sound text).mono fun r b' given => ?_)
    obtain ⟨creates, laid, room, _⟩ := given
    exact ⟨creates, laid, by rintro _ ⟨⟩; exact room⟩
  | vector t items =>
    refine placed ((createVector_does sound t items).mono fun r b' given => ?_)
    obtain ⟨creates, laid, room, _⟩ := given
    exact ⟨creates, laid, by rintro _ ⟨⟩; exact room⟩
  | references element target items =>
    refine placed ((createReferenceVector_does sound element target items).mono fun r b' given => ?_)
    obtain ⟨creates, laid, room, _⟩ := given
    have revs {kind : ObjectKind} : (items.map fun p => (⟨p.rev⟩ : Ref kind)).map Ref.rev =
        items.map Placed.rev := List.map_map
    refine ⟨creates, ?_, fun size known => ?_⟩
    · cases element <;> exact (congrArg (b'.ReferencesLaid r.rev) revs).mpr laid
    · cases element <;> cases known <;> rwa [List.length_map]
  | table a =>
    exact placed ((createTable_frames sound a).mono fun _ _ h => ⟨h.1, ⟨_, h.2⟩, by rintro _ ⟨⟩⟩)

end Builder

/-! ### Runs -/

namespace Construction
variable {x : Construction}

def ask (x : Construction) (r : Builder.Request) : Construction :=
  match runFrom x.builder r.steps with
  | (.ok p, b) => ⟨b, ⟨p.rev, r.content⟩ :: x.history⟩
  | (.error _, b) => ⟨b, x.history⟩

def operate (x : Construction) : Operation → Construction
  | .request r => x.ask r
  | .force on => { x with builder := { x.builder with forceDefaults := on } }

def operateAll (x : Construction) (operations : List Operation) : Construction :=
  operations.foldl operate x

theorem ask_builder (x : Construction) (r : Builder.Request) :
    (x.ask r).builder = (runFrom x.builder r.steps).2 := by
  unfold ask
  rcases runFrom x.builder r.steps with ⟨_ | _, _⟩ <;> rfl

/-- What holds after a request whether it fails or creates its object. -/
theorem ask_of_does {P : Construction → Prop} {r : Builder.Request} {done : Placed → Builder → Prop}
    (does : r.steps.Does x.builder done) (failed : ∀ b', x.builder.Extends b' → P ⟨b', x.history⟩)
    (created : ∀ p b', done p b' → P ⟨b', ⟨p.rev, r.content⟩ :: x.history⟩) : P (x.ask r) := by
  unfold ask
  cases ran : runFrom x.builder r.steps with
  | mk result b' =>
    cases result with
    | error e => exact failed b' (does.of_error ran)
    | ok p => exact created p b' (does.of_ok ran)

/-- What holds in the beginning and is kept by each operation holds after all of them. -/
theorem operateAll_of_operate {P : Construction → Prop} {operations : List Operation} (first : P x)
    (next : ∀ y, P y → ∀ o ∈ operations, P (y.operate o)) : P (x.operateAll operations) :=
  List.foldlRecOn operations operate first next

structure Framed (x : Construction) : Prop where
  builder : x.builder.Sound
  placed : x.builder.placed.map Placed.rev = x.history.map Creation.rev
  framed : ∀ c ∈ x.history, x.builder.Framed c

theorem start_framed (storage : Storage) : (start storage).Framed :=
  ⟨Builder.ofStorage_sound storage, rfl, List.forall_mem_nil _⟩

theorem Framed.extends (h : x.Framed) {b' : Builder} (grows : x.builder.Extends b') :
    Framed ⟨b', x.history⟩ := by
  obtain ⟨front, grown⟩ := grows
  exact ⟨grown.sound h.builder, by rw [grown.placed]; exact h.placed,
    fun c known => (h.framed c known).kept grown.keeps⟩

theorem Framed.creates (h : x.Framed) {b' : Builder} {p : Placed} {content : Content}
    (creates : x.builder.Creates b' p.rev p.kind) (framed : b'.Framed ⟨p.rev, content⟩) :
    Framed ⟨b', ⟨p.rev, content⟩ :: x.history⟩ := by
  have keeps := creates.keeps
  have sound := creates.sound h.builder
  obtain ⟨_, _, _, _, _, rfl⟩ := creates
  refine ⟨sound, ?_, List.forall_mem_cons.mpr ⟨framed, fun c known => (h.framed c known).kept keeps⟩⟩
  dsimp only
  rw [List.map_cons, List.map_cons, h.placed]

theorem Framed.force (h : x.Framed) (on : Bool) : (x.operate (.force on)).Framed := by
  have keeps := x.builder.keeps_force on
  exact ⟨h.builder.force on, h.placed, fun c known => (h.framed c known).kept keeps⟩

theorem Framed.operate (h : x.Framed) (o : Operation) : (x.operate o).Framed := by
  cases o with
  | request r =>
    exact ask_of_does (r.steps_frames h.builder) (fun _ => h.extends) fun _ _ given =>
      h.creates given.1 given.2.1
  | force on => exact h.force on

theorem Framed.operateAll (h : x.Framed) (operations : List Operation) : (x.operateAll operations).Framed :=
  operateAll_of_operate h fun _ framed o _ => framed.operate o

/-- An object that was created lies among the used bytes. -/
theorem Framed.inFront (h : x.Framed) {c : Creation} (known : c ∈ x.history) :
    0 < c.rev ∧ c.rev ≤ x.builder.used.bytes.length := by
  have placed : c.rev ∈ x.builder.placed.map Placed.rev := by
    rw [h.placed]
    exact List.mem_map_of_mem known
  obtain ⟨p, isPlaced, same⟩ := List.mem_map.mp placed
  obtain ⟨n, _, positive, inside⟩ := (h.framed c known).exists_extent h.builder
  have inFront := h.builder.listed.inFront p isPlaced
  rw [Builder.size_data] at inside
  simp only [Builder.positionOf] at inside
  omega

/-- What has been placed was created. -/
theorem Framed.exists_creation (h : x.Framed) {p : Placed} (placed : p ∈ x.builder.placed) :
    ∃ c ∈ x.history, c.rev = p.rev := by
  have member := List.mem_map_of_mem (f := Placed.rev) placed
  rw [h.placed] at member
  exact List.mem_map.mp member

/-- What steps leave can be left by a run of requests, in which tables are asked for with arguments that fit. -/
private def Operates (s : Schema) {α : Type} (steps : Build α) : Prop :=
  ∀ x : Construction, steps.Leaves x.builder fun b => ∃ requests : List Builder.Request,
    (∀ a, .table a ∈ requests → a.Fits s) ∧ (x.operateAll (requests.map .request)).builder = b

private theorem Operates.of_request {s : Schema} {kind : ObjectKind} {steps : Build (Ref kind)}
    (r : Builder.Request) (same : r.steps = do return (← steps).placed)
    (fits : ∀ a, r = .table a → a.Fits s) : Operates s steps := by
  intro x
  refine ⟨[r], fun a member => fits a (List.mem_singleton.mp member).symm, (ask_builder x r).trans ?_⟩
  rw [same, runFrom_bind]
  rcases runFrom x.builder steps with ⟨_ | _, _⟩ <;> rfl

private theorem operates_composes (s : Schema) : Composes s (Operates s) where
  pure _ x := ⟨[], by simp, rfl⟩
  throw _ x := ⟨[], by simp, rfl⟩
  bind first next x := by
    refine Leaves.bind (first x) fun a b' ran before => ?_
    obtain ⟨requests, fits, rfl⟩ := before
    obtain ⟨more, fits', after⟩ := next a ⟨_, _, ran⟩ (x.operateAll (requests.map .request))
    refine ⟨requests ++ more, fun a member => (List.mem_append.mp member).elim (fits a) (fits' a), ?_⟩
    rw [← after, List.map_append, operateAll, List.foldl_append]
    rfl
  string text := .of_request (.string text) rfl (by simp)
  vector t items := .of_request (.vector t items) rfl (by simp)
  references element target items := .of_request (.references element target items) rfl (by simp)
  table a fits := .of_request (.table a) rfl (by rintro _ ⟨⟩; exact fits)

/-- Building from JSON is a run of requests. -/
theorem buildTable_operates (s : Schema) (id : Nat) (json : Json) (x : Construction) :
    ∃ requests : List Builder.Request, (∀ a, .table a ∈ requests → a.Fits s) ∧
      (x.operateAll (requests.map .request)).builder =
        (runFrom x.builder (Builder.buildTable s id json)).2 :=
  (operates_composes s).buildTable id json x

end Construction
end FlatTable

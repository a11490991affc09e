import FlatTable.Command.FileSystem
import FlatTable.Command.Run
import FlatTable.Proofs.Result

/-! What a command does in a world: when its parts succeed, and what they leave as it is. -/
namespace FlatTable

theorem Program.run_bind {α β : Type} (p : Program α) (f : α → Program β) (w : World) :
    (p >>= f).run w = (f (p.run w).1).run (p.run w).2 := by
  change (p.bind f).run w = _
  induction p generalizing w with
  | done a => rfl
  | readFile path next ih => exact ih _ w
  | writeFile path bytes next ih =>
    simp only [Program.bind, Program.run]
    split <;> exact ih _ _
  | makeDirectory path next ih =>
    simp only [Program.bind, Program.run]
    split <;> exact ih _ _
  | readInput next ih => exact ih _ w
  | print line next ih => exact ih _
  | printError line next ih => exact ih _

def World.print (w : World) (lines : List String) : World :=
  { w with output := lines.reverse ++ w.output }

@[simp] theorem World.files_print (w : World) (lines : List String) : (w.print lines).files = w.files :=
  rfl

@[simp] theorem World.print_nil (w : World) : w.print [] = w := rfl

theorem World.print_append (w : World) (first second : List String) :
    (w.print first).print second = w.print (first ++ second) := by
  simp [World.print]

namespace CommandLine
open Activity

namespace Activity
section
variable {α β ε : Type} {act : Activity α} {next : α → Activity β} {w w' : World} {a : α} {r : β}
  {e : Failure}

def within (act : Activity α) (w : World) : Except Failure α × World := Program.run act.run w

theorem within_bind (act : Activity α) (next : α → Activity β) (w : World) :
    (act >>= next).within w =
      match act.within w with
      | (.ok a, w') => (next a).within w'
      | (.error e, w') => (.error e, w') := by
  change Program.run (ExceptT.run act >>= ExceptT.bindCont next) w = _
  rw [Program.run_bind]
  unfold within
  split <;> simp_all <;> rfl

theorem within_bind_eq_ok_iff :
    (act >>= next).within w = (.ok r, w') ↔
      ∃ a v, act.within w = (.ok a, v) ∧ (next a).within v = (.ok r, w') := by
  rw [within_bind]
  split <;> simp_all

theorem within_pure (a : α) (w : World) : (pure a : Activity α).within w = (.ok a, w) := rfl

theorem within_pure_eq_ok_iff {b : α} :
    (pure b : Activity α).within w = (.ok a, w') ↔ a = b ∧ w' = w := by
  rw [within_pure, Prod.mk.injEq, Except.ok.injEq, eq_comm, eq_comm (a := w)]

theorem within_throw (e : Failure) (w : World) :
    (throw e : Activity α).within w = (.error e, w) := rfl

theorem within_print (line : String) (w : World) :
    (print line).within w = (.ok (), w.print [line]) := rfl

theorem within_orFail_eq_ok_iff {wrap : ε → Failure} {x : Except ε α} :
    (orFail wrap x).within w = (.ok a, w') ↔ x = .ok a ∧ w' = w := by
  cases x with
  | error e => simp [orFail, within_throw]
  | ok b =>
    rw [orFail, within_pure_eq_ok_iff, Except.ok.injEq, eq_comm]

theorem within_require_eq_ok_iff {x : Option α} :
    (require e x).within w = (.ok a, w') ↔ x = some a ∧ w' = w := by
  cases x with
  | none => simp [require, within_throw]
  | some b => rw [require, within_pure_eq_ok_iff, Option.some.injEq, eq_comm]

theorem decode_eq_require (what : String) (b : Buffer) :
    decode what b = require (.notText what) (Text.decodeUtf8? b.toList) := by
  unfold decode require
  cases Text.decodeUtf8? b.toList <;> rfl

theorem within_readBytes (path : String) (w : World) :
    (readBytes path).within w = (orFail (.read path) (w.files.read path)).within w := by
  change Program.run (Program.bind (.readFile path _) _) w = _
  simp only [Program.bind, Program.run]
  cases w.files.read path <;> rfl

theorem within_readText (what path : String) (w : World) :
    (readText what path).within w =
      (orFail (.read what) (w.files.read path) >>= decode what).within w := by
  change Program.run (Program.bind (.readFile path _) _) w = _
  simp only [Program.bind, Program.run]
  cases w.files.read path <;> rfl

theorem within_readBytes_eq_ok_iff {path : String} {b : Buffer} :
    (readBytes path).within w = (.ok b, w') ↔ w.files.read path = .ok b ∧ w' = w := by
  rw [within_readBytes, within_orFail_eq_ok_iff]

theorem within_readText_eq_ok_iff {what path text : String} :
    (readText what path).within w = (.ok text, w') ↔
      (∃ b, w.files.read path = .ok b ∧ Text.decodeUtf8? b.toList = some text) ∧ w' = w := by
  simp only [within_readText, within_bind_eq_ok_iff, decode_eq_require, within_orFail_eq_ok_iff,
    within_require_eq_ok_iff]
  constructor
  · rintro ⟨b, _, ⟨found, rfl⟩, decoded, rfl⟩
    exact ⟨⟨b, found, decoded⟩, rfl⟩
  · rintro ⟨⟨b, found, decoded⟩, rfl⟩
    exact ⟨b, w', ⟨found, rfl⟩, decoded, rfl⟩

theorem within_readInput_eq_ok_iff {text : String} :
    readInput.within w = (.ok text, w') ↔ Text.decodeUtf8? w.input.toList = some text ∧ w' = w := by
  change (decode "stdin" w.input).within w = _ ↔ _
  rw [decode_eq_require, within_require_eq_ok_iff]

/-- Writing succeeds if the file system takes the bytes, and fails without an effect if not. -/
theorem within_write (path : String) (b : Buffer) (w : World) :
    (write path b).within w =
      match w.files.write path b with
      | .ok files => (.ok (), { w with files := files })
      | .error e => (.error (.write path e), w) := by
  change Program.run (Program.bind (.writeFile path b _) _) w = _
  simp only [Program.bind, Program.run]
  cases w.files.write path b <;> rfl

theorem within_write_eq_ok_iff {path : String} {b : Buffer} {u : Unit} :
    (write path b).within w = (.ok u, w') ↔
      ∃ files, w.files.write path b = .ok files ∧ w' = { w with files := files } := by
  rw [within_write]
  cases w.files.write path b <;> simp [eq_comm]

/-! ### Activities that leave the files as they are -/

def OnlyPrints (act : Activity α) : Prop := ∀ w, ∃ lines, (act.within w).2 = w.print lines

theorem OnlyPrints.bind (first : act.OnlyPrints) (second : ∀ a, (next a).OnlyPrints) :
    (act >>= next).OnlyPrints := by
  intro w
  obtain ⟨lines, after⟩ := first w
  rw [within_bind]
  split
  · rename_i a v same
    rw [same] at after
    obtain rfl := after
    obtain ⟨more, after⟩ := second a (w.print lines)
    exact ⟨lines ++ more, after.trans (w.print_append lines more)⟩
  · rename_i same
    rw [same] at after
    exact ⟨lines, after⟩

theorem OnlyPrints.pure (a : α) : (pure a : Activity α).OnlyPrints := fun _ => ⟨[], rfl⟩

theorem OnlyPrints.throw (e : Failure) : (throw e : Activity α).OnlyPrints := fun _ => ⟨[], rfl⟩

theorem onlyPrints_print (line : String) : (print line).OnlyPrints := fun _ => ⟨[line], rfl⟩

theorem onlyPrints_orFail (wrap : ε → Failure) (x : Except ε α) : (orFail wrap x).OnlyPrints := by
  cases x with
  | error e => exact .throw _
  | ok a => exact .pure a

theorem onlyPrints_decode (what : String) (b : Buffer) : (decode what b).OnlyPrints := by
  unfold decode
  split
  · exact .pure _
  · exact .throw _

theorem onlyPrints_readBytes (path : String) : (readBytes path).OnlyPrints := by
  intro w
  rw [within_readBytes]
  exact onlyPrints_orFail _ _ w

theorem onlyPrints_readText (what path : String) : (readText what path).OnlyPrints := by
  intro w
  rw [within_readText]
  exact (onlyPrints_orFail _ _).bind (onlyPrints_decode what) w

theorem onlyPrints_require (e : Failure) (x : Option α) : (require e x).OnlyPrints := by
  cases x with
  | none => exact .throw e
  | some a => exact .pure a

def Prints (act : Activity Unit) : Prop := ∃ lines, ∀ w, act.within w = (.ok (), w.print lines)

theorem prints_print (line : String) : (print line).Prints := ⟨[line], fun _ => rfl⟩

theorem prints_pure : (pure () : Activity Unit).Prints := ⟨[], fun _ => rfl⟩

theorem Prints.bind {next : Unit → Activity Unit} {act : Activity Unit} (first : act.Prints)
    (second : (next ()).Prints) : (act >>= next).Prints := by
  obtain ⟨lines, printed⟩ := first
  obtain ⟨more, printed'⟩ := second
  refine ⟨lines ++ more, fun w => ?_⟩
  rw [within_bind, printed]
  exact (printed' _).trans (by rw [World.print_append])

theorem prints_forM {l : List α} {f : α → Activity Unit} (each : ∀ a, (f a).Prints) :
    (l.forM f).Prints := by
  induction l with
  | nil => exact prints_pure
  | cons a l ih => exact (each a).bind ih

def FailsClean (act : Activity α) : Prop :=
  ∀ w e w', act.within w = (.error e, w') → ∃ lines, w' = w.print lines

theorem FailsClean.bind (first : act.OnlyPrints) (second : ∀ a, (next a).FailsClean) :
    (act >>= next).FailsClean := by
  intro w e w' failed
  obtain ⟨lines, after⟩ := first w
  rw [within_bind] at failed
  split at failed
  · rename_i a v same
    rw [same] at after
    obtain rfl := after
    obtain ⟨more, after⟩ := second a _ e w' failed
    exact ⟨lines ++ more, after.trans (w.print_append lines more)⟩
  · rename_i same
    rw [same] at after
    exact ⟨lines, (Prod.mk.inj failed).2 ▸ after⟩

/-- A file that cannot be written stays, and so do all others. -/
theorem failsClean_write_print (path line : String) (b : Buffer) :
    (do write path b; print line).FailsClean := by
  intro w e w' failed
  rw [within_bind, within_write] at failed
  cases written : w.files.write path b with
  | ok files =>
    rw [written] at failed
    cases failed
  | error e =>
    rw [written] at failed
    exact ⟨[], (Prod.mk.inj failed).2.symm⟩

end
end Activity

/-- The exit code tells whether a command has succeeded, and a failure is printed as an error. -/
theorem run_command {args : List String} {c : Command} (asked : parse args = .command c)
    (style : Terminal.Style) (w : World) :
    (run style args).run w =
      match (c.run style).within w with
      | (.ok _, w') => (0, w')
      | (.error e, w') => (1, { w' with errors := ("❌ " ++ e.message) :: w'.errors }) := by
  rw [run, asked]
  change (Program.run ((c.run style).run >>= _) w) = _
  rw [Program.run_bind]
  unfold within
  obtain ⟨result, w'⟩ := Program.run (c.run style).run w
  cases result <;> rfl

theorem run_command_of_ok {args : List String} {c : Command} (asked : parse args = .command c)
    {style : Terminal.Style} {w w' : World} (done : (c.run style).within w = (.ok (), w')) :
    (run style args).run w = (0, w') := by
  rw [run_command asked, done]

theorem within_of_run_command {args : List String} {c : Command} (asked : parse args = .command c)
    {style : Terminal.Style} {w w' : World} (ran : (run style args).run w = (0, w')) :
    (c.run style).within w = (.ok (), w') := by
  rw [run_command asked] at ran
  split at ran
  · rename_i done
    rw [done, (Prod.mk.inj ran).2]
  · cases ran

/-- The only exit codes of a command are 0 and 1. -/
theorem run_command_cases {args : List String} {c : Command} (asked : parse args = .command c)
    (style : Terminal.Style) (w : World) :
    (∃ w', (c.run style).within w = (.ok (), w')) ∨ ((run style args).run w).1 = 1 := by
  rw [run_command asked]
  split
  · rename_i done
    exact .inl ⟨_, done⟩
  · exact .inr rfl

/-! ### Schemas and verifiers that are asked for -/

section

inductive SchemaAt (fs : FileSystem) : Option String → Schema → Prop
  | builtIn : SchemaAt fs none Character.schema
  | file {path text : String} {b : Buffer} {s : Schema} (found : fs.read path = .ok b)
      (decoded : Text.decodeUtf8? b.toList = some text) (loaded : Schema.ofText text = .ok s) :
      SchemaAt fs (some path) s

/-- The identifier that an option stands for, which has four bytes. -/
inductive Tagged : Option String → Option Identifier → Prop
  | none : Tagged none none
  | some {text : String} {tag : Identifier}
      (four : Identifier.ofBytes? (Text.encodeUtf8 text) = .some tag) :
      Tagged (.some text) (.some tag)

def Checks.options (c : Checks) : VerifierOptions :=
  ⟨c.maxDepth, c.maxTables, VerifierOptions.standard.maxBufferSize, !c.noAlign⟩

variable {w w' : World}

theorem within_loadSchema_eq_ok_iff {file : Option String} {s : Schema} :
    (loadSchema file).within w = (.ok s, w') ↔ SchemaAt w.files file s ∧ w' = w := by
  cases file with
  | none =>
    rw [loadSchema, within_pure_eq_ok_iff]
    refine and_congr_left fun _ => ⟨?_, ?_⟩
    · rintro rfl
      exact .builtIn
    · rintro ⟨⟩
      rfl
  | some path =>
    simp only [loadSchema, within_bind_eq_ok_iff, within_readText_eq_ok_iff,
      within_orFail_eq_ok_iff]
    constructor
    · rintro ⟨text, _, ⟨⟨b, found, decoded⟩, rfl⟩, loaded, rfl⟩
      exact ⟨.file found decoded loaded, rfl⟩
    · rintro ⟨given, rfl⟩
      cases given with
      | file found decoded loaded =>
        exact ⟨_, w', ⟨⟨_, found, decoded⟩, rfl⟩, loaded, rfl⟩

theorem within_optionalIdentifier_eq_ok_iff {text : Option String} {tag : Option Identifier} :
    (optionalIdentifier text).within w = (.ok tag, w') ↔ Tagged text tag ∧ w' = w := by
  cases text with
  | none =>
    rw [optionalIdentifier, within_pure_eq_ok_iff]
    refine and_congr_left fun _ => ⟨?_, ?_⟩
    · rintro rfl
      exact .none
    · rintro ⟨⟩
      rfl
  | some text =>
    simp only [optionalIdentifier, identifier, within_bind_eq_ok_iff, within_require_eq_ok_iff,
      within_pure_eq_ok_iff]
    constructor
    · rintro ⟨tag, _, ⟨four, rfl⟩, rfl, rfl⟩
      exact ⟨.some four, rfl⟩
    · rintro ⟨given, rfl⟩
      cases given with
      | some four => exact ⟨_, w', ⟨four, rfl⟩, rfl, rfl⟩

theorem within_verifier_eq_ok_iff {s : Schema} {c : Checks} {v : Verifier} :
    (verifier s c).within w = (.ok v, w') ↔
      (∃ tag, Tagged c.identifier tag ∧ v = ⟨s, c.options, tag, none⟩) ∧ w' = w := by
  simp only [verifier, within_bind_eq_ok_iff, within_optionalIdentifier_eq_ok_iff,
    within_pure_eq_ok_iff]
  constructor
  · rintro ⟨tag, _, ⟨tagged, rfl⟩, rfl, rfl⟩
    exact ⟨⟨tag, tagged, rfl⟩, rfl⟩
  · rintro ⟨⟨tag, tagged, rfl⟩, rfl⟩
    exact ⟨tag, _, ⟨tagged, rfl⟩, rfl, rfl⟩

theorem SchemaAt.unique {fs : FileSystem} {file : Option String} {s s' : Schema} (h : SchemaAt fs file s)
    (h' : SchemaAt fs file s') : s = s' := by
  let w : World := ⟨fs, #[], [], []⟩
  have first := within_loadSchema_eq_ok_iff (w := w) |>.mpr ⟨h, rfl⟩
  have second := within_loadSchema_eq_ok_iff (w := w) |>.mpr ⟨h', rfl⟩
  simpa using first.symm.trans second

theorem Tagged.unique {text : Option String} {tag tag' : Option Identifier} (h : Tagged text tag)
    (h' : Tagged text tag') : tag = tag' := by
  cases h with
  | none => cases h'; rfl
  | some four =>
    cases h' with
    | some four' => rw [Option.some.inj (four.symm.trans four')]

inductive VerifierAt (fs : FileSystem) (schemaFile : Option String) (c : Checks) : Verifier → Prop
  | intro {s : Schema} {tag : Option Identifier} (loaded : SchemaAt fs schemaFile s)
      (tagged : Tagged c.identifier tag) : VerifierAt fs schemaFile c ⟨s, c.options, tag, none⟩

/-- A file is accepted by the verifier that the command line asks for. -/
structure AcceptedAt (fs : FileSystem) (file : String) (schemaFile : Option String) (c : Checks)
    (v : Verifier) (b : Buffer) (root : Root) : Prop where
  asked : VerifierAt fs schemaFile c v
  found : fs.read file = .ok b
  accepted : v.verify b = .ok root

theorem VerifierAt.unique {fs : FileSystem} {schemaFile : Option String} {c : Checks}
    {v v' : Verifier} (h : VerifierAt fs schemaFile c v) (h' : VerifierAt fs schemaFile c v') :
    v = v' := by
  obtain ⟨loaded, tagged⟩ := h
  obtain ⟨loaded', tagged'⟩ := h'
  rw [loaded.unique loaded', tagged.unique tagged']

theorem onlyPrints_loadSchema (file : Option String) : (loadSchema file).OnlyPrints := by
  cases file with
  | none => exact .pure _
  | some path => exact (onlyPrints_readText _ path).bind fun _ => onlyPrints_orFail _ _

theorem onlyPrints_optionalIdentifier (text : Option String) :
    (optionalIdentifier text).OnlyPrints := by
  cases text with
  | none => exact .pure _
  | some text => exact (onlyPrints_require _ _).bind fun _ => .pure _

theorem onlyPrints_verifier (s : Schema) (c : Checks) : (verifier s c).OnlyPrints :=
  (onlyPrints_optionalIdentifier _).bind fun _ => .pure _

end
end CommandLine
end FlatTable

import FlatTable.Json.Token

/-! JSON documents as trees of tokens, before repeated members are merged and numbers are
converted. -/
namespace FlatTable.Json

inductive Document where
  | null
  | bool (b : Bool)
  | number (n : Numeral)
  | string (s : Option String)
  | array (items : List Document)
  | object (members : List (Option String × Document))

namespace Document

/-- An array or an object part way through, with what has been read so far, last first. -/
inductive Frame where
  | array (items : List Document)
  | object (members : List (Option String × Document)) (name : Option String)

inductive Expect where
  | value
  | valueOrEnd
  | separator
  | name
  | nameOrEnd
  | colon (name : Option String)

/-- The state of reading: the open arrays and objects, innermost first, the members of an object
whose next name has not come yet, and the finished document. -/
structure Reader where
  frames : List Frame
  members : List (Option String × Document)
  expect : Expect
  finished : Option Document

def Reader.start : Reader := ⟨[], [], .value, none⟩

def Reader.complete (d : Document) : List Frame → Reader
  | [] => ⟨[], [], .separator, some d⟩
  | .array items :: frames => ⟨.array (d :: items) :: frames, [], .separator, none⟩
  | .object members name :: frames =>
    ⟨.object ((name, d) :: members) none :: frames, [], .separator, none⟩

def leaf? : Token → Option Document
  | .null => some .null
  | .bool b => some (.bool b)
  | .number n => some (.number n)
  | .string s => some (.string s)
  | _ => none

def Reader.begin? (frames : List Frame) (t : Token) : Option Reader :=
  match t with
  | .openBracket => some ⟨.array [] :: frames, [], .valueOrEnd, none⟩
  | .openBrace => some ⟨frames, [], .nameOrEnd, none⟩
  | t => (leaf? t).map fun d => complete d frames

def Reader.step? (r : Reader) (t : Token) : Option Reader :=
  if r.finished.isSome then none
  else
    match r.expect, t, r.frames with
    | .valueOrEnd, .closeBracket, .array items :: frames =>
      some (complete (.array items.reverse) frames)
    | .value, t, frames => begin? frames t
    | .valueOrEnd, t, frames => begin? frames t
    | .separator, .comma, .array items :: frames =>
      some ⟨.array items :: frames, [], .value, none⟩
    | .separator, .closeBracket, .array items :: frames =>
      some (complete (.array items.reverse) frames)
    | .separator, .comma, .object members _ :: frames => some ⟨frames, members, .name, none⟩
    | .separator, .closeBrace, .object members _ :: frames =>
      some (complete (.object members.reverse) frames)
    | .name, .string s, frames => some ⟨frames, r.members, .colon s, none⟩
    | .nameOrEnd, .string s, frames => some ⟨frames, r.members, .colon s, none⟩
    | .nameOrEnd, .closeBrace, frames => some (complete (.object []) frames)
    | .colon s, .colon, frames => some ⟨.object r.members s :: frames, [], .value, none⟩
    | _, _, _ => none

def ofTokens? (tokens : List Token) : Option Document :=
  (tokens.foldlM Reader.step? Reader.start).bind Reader.finished

def ofText? (text : String) : Option Document := (tokens? text).bind ofTokens?

mutual

def depth : Document → Nat
  | .array items => itemsDepth items + 1
  | .object members => membersDepth members + 1
  | _ => 0

def itemsDepth : List Document → Nat
  | [] => 0
  | d :: ds => max (depth d) (itemsDepth ds)

def membersDepth : List (Option String × Document) → Nat
  | [] => 0
  | (_, d) :: ds => max (depth d) (membersDepth ds)

end

mutual

def toJson? : Document → Option Json
  | .null => some .null
  | .bool b => some (.bool b)
  | .number n => n.value?
  | .string s => s.map .string
  | .array items => (itemsToJson? items).map .array
  | .object members => (membersToJson? members).map Json.ofMembers

def itemsToJson? : List Document → Option (List Json)
  | [] => some []
  | d :: ds => do return (← toJson? d) :: (← itemsToJson? ds)

def membersToJson? : List (Option String × Document) → Option (List (String × Json))
  | [] => some []
  | (name, d) :: ds => do return ((← name), (← toJson? d)) :: (← membersToJson? ds)

end

end Document

def ofText? (text : String) : Option Json := do
  let d ← Document.ofText? text
  if d.depth ≤ maxDepth then d.toJson? else none

end FlatTable.Json

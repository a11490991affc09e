import FlatTable.Json.Document

/-! Documents read into structures with fixed members. A structure is an object, or an array of its
members in the order of their declaration. -/
namespace FlatTable.Json.Document

def assign? (names : List String) (slots : List (Option Document)) (name : String) (d : Document) :
    Option (List (Option Document)) :=
  let i := names.idxOf name
  match slots[i]? with
  | some none => some (slots.set i (some d))
  | _ => none

/-- The members of an object in the order of `names`. A repeated member is refused, and so is an
unknown one if `strict`. -/
def objectSlots? (names : List String) (strict : Bool) (members : List (Option String × Document)) :
    Option (List (Option Document)) :=
  members.foldlM
    (fun slots (name, d) => name.bind fun name =>
      if names.contains name then assign? names slots name d
      else if strict then none else some slots)
    (names.map fun _ => none)

def record? (names : List String) (strict : Bool) : Document → Option (List (Option Document))
  | .object members => objectSlots? names strict members
  | .array items =>
    if items.length ≤ names.length then
      some (items.map some ++ List.replicate (names.length - items.length) none)
    else none
  | _ => none

def string? : Document → Option String
  | .string s => s
  | _ => none

def bool? : Document → Option Bool
  | .bool b => some b
  | _ => none

def integer? : Document → Option Int
  | .number n => match n.value? with
    | some (.integer i) => some i
    | _ => none
  | _ => none

def integerIn? (low bound : Int) (d : Document) : Option Int :=
  d.integer?.bind fun i => if low ≤ i ∧ i < bound then some i else none

def list? {α : Type} (item? : Document → Option α) : Document → Option (List α)
  | .array items => items.mapM item?
  | _ => none

/-- `null` stands for an absent value. -/
def optional? {α : Type} (value? : Document → Option α) : Document → Option (Option α)
  | .null => some none
  | d => (value? d).map some

def required? {α : Type} (read? : Document → Option α) (slot : Option Document) : Option α :=
  slot.bind read?

def orElse? {α : Type} (read? : Document → Option α) (default : α) : Option Document → Option α
  | none => some default
  | some d => read? d

end FlatTable.Json.Document

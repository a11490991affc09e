import FlatTable.Layout
import FlatTable.Text.Scope

/-! Schemas: the enums, structs and tables of a message type. Everything refers to everything else
by its number in the order of declaration, and the number of a field fixes its place in the vtable.
-/
namespace FlatTable

structure Enumerator where
  name : String
  value : Int
  deriving DecidableEq

structure EnumDef where
  name : String
  underlying : ScalarType
  values : List Enumerator
  deriving DecidableEq

structure Member where
  name : String
  type : ScalarType
  deriving DecidableEq

structure StructDef where
  name : String
  members : List Member
  deriving DecidableEq

inductive ElementType where
  | scalar (t : ScalarType)
  | enum (id : Nat)
  | string
  | table (id : Nat)
  deriving DecidableEq

inductive FieldType where
  | scalar (t : ScalarType)
  | enum (id : Nat)
  | string
  | vector (e : ElementType)
  | table (id : Nat)
  | struct (id : Nat)
  deriving DecidableEq

structure FieldDef where
  name : String
  type : FieldType
  declared : Option Value
  deprecated : Bool
  attributes : List String
  deriving DecidableEq

structure TableDef where
  name : String
  fields : Array FieldDef
  deriving DecidableEq

structure Schema where
  nameSpace : String
  attributes : List String
  enums : Array EnumDef
  structs : Array StructDef
  tables : Array TableDef
  root : Option Nat
  deriving DecidableEq

namespace FieldType

def isFixedWidth : FieldType → Bool
  | scalar _ | enum _ => true
  | string | vector _ | table _ | struct _ => false

def isInline : FieldType → Bool
  | scalar _ | enum _ | struct _ => true
  | string | vector _ | table _ => false

def isReference (t : FieldType) : Bool := !t.isInline

end FieldType

namespace ElementType

def isReference : ElementType → Bool
  | string | table _ => true
  | scalar _ | enum _ => false

end ElementType

namespace EnumDef

def withValue (e : EnumDef) (name : String) (value : Int) : EnumDef :=
  { e with values := e.values ++ [⟨Text.stripScope name, value⟩] }

def nameOf? (e : EnumDef) (value : Int) : Option String :=
  (e.values.find? fun v => v.value == value).map Enumerator.name

def valueOf? (e : EnumDef) (name : String) : Option Int :=
  (e.values.find? fun v => v.name == Text.stripScope name).map Enumerator.value

end EnumDef

namespace StructDef

def memberId? (s : StructDef) (name : String) : Option Nat :=
  s.members.findIdx? fun m => m.name == name

def alignment (s : StructDef) : Nat := (s.members.map fun m => m.type.width).foldl max 1

/-- Where the members start when the first free byte is at `pos`: each is aligned to its width. -/
def offsetsFrom (pos : Nat) : List Member → List Nat
  | [] => []
  | m :: ms =>
    let start := pos + Layout.padding pos m.type.width
    start :: offsetsFrom (start + m.type.width) ms

def offsets (s : StructDef) : List Nat := offsetsFrom 0 s.members

def endFrom (pos : Nat) : List Member → Nat
  | [] => pos
  | m :: ms => endFrom (pos + Layout.padding pos m.type.width + m.type.width) ms

def size (s : StructDef) : Nat :=
  let stop := endFrom 0 s.members
  stop + Layout.padding stop s.alignment

/-- The struct that descriptions may use without declaring it. -/
def vec3 : StructDef := ⟨"Vec3", [⟨"x", .float⟩, ⟨"y", .float⟩, ⟨"z", .float⟩]⟩

end StructDef

namespace FieldDef

def plain (name : String) (type : FieldType) : FieldDef := ⟨name, type, none, false, []⟩

end FieldDef

namespace TableDef

def fieldId? (t : TableDef) (name : String) : Option Nat :=
  t.fields.findIdx? fun f => f.name == name

end TableDef

namespace Schema

def empty : Schema := ⟨"", [], #[], #[], #[], none⟩

def enumId? (s : Schema) (name : String) : Option Nat := s.enums.findIdx? fun e => e.name == name

def structId? (s : Schema) (name : String) : Option Nat :=
  s.structs.findIdx? fun e => e.name == name

def tableId? (s : Schema) (name : String) : Option Nat := s.tables.findIdx? fun t => t.name == name

def field? (s : Schema) (table field : Nat) : Option FieldDef :=
  s.tables[table]?.bind fun t => t.fields[field]?

/-- The declared root, or the last table where none is declared. -/
def rootTable? (s : Schema) : Option Nat :=
  match s.root with
  | some id => if id < s.tables.size then some id else none
  | none => if s.tables.isEmpty then none else some (s.tables.size - 1)

def underlying? (s : Schema) (enum : Nat) : Option ScalarType :=
  s.enums[enum]?.map EnumDef.underlying

def scalarType? (s : Schema) : FieldType → Option ScalarType
  | .scalar t => some t
  | .enum id => s.underlying? id
  | _ => none

def elementScalarType? (s : Schema) : ElementType → Option ScalarType
  | .scalar t => some t
  | .enum id => s.underlying? id
  | _ => none

def inlineWidth (s : Schema) (t : FieldType) : Nat :=
  match t with
  | .struct id => (s.structs[id]?.map StructDef.size).getD 0
  | t => ((s.scalarType? t).map ScalarType.width).getD Layout.offsetSize

def inlineAlignment (s : Schema) (t : FieldType) : Nat :=
  match t with
  | .struct id => (s.structs[id]?.map StructDef.alignment).getD 1
  | t => s.inlineWidth t

def elementWidth (s : Schema) (e : ElementType) : Nat :=
  ((s.elementScalarType? e).map ScalarType.width).getD Layout.offsetSize

def fieldDefault? (s : Schema) (table field : Nat) : Option Value := do
  let f ← s.field? table field
  let t ← s.scalarType? f.type
  return f.declared.getD t.zero

def enumName (s : Schema) (id : Nat) : String :=
  (s.enums[id]?.map EnumDef.name).getD ("enum#" ++ toString id)

def structName (s : Schema) (id : Nat) : String :=
  (s.structs[id]?.map StructDef.name).getD ("struct#" ++ toString id)

def tableName (s : Schema) (id : Nat) : String :=
  (s.tables[id]?.map TableDef.name).getD ("table#" ++ toString id)

/-- The name of an element type. Declarations out of range are named by their number. -/
def elementTypeName (s : Schema) : ElementType → String
  | .scalar t => t.name
  | .enum id => s.enumName id
  | .string => "string"
  | .table id => s.tableName id

def typeName (s : Schema) : FieldType → String
  | .scalar t => t.name
  | .enum id => s.enumName id
  | .string => "string"
  | .vector e => "[" ++ s.elementTypeName e ++ "]"
  | .table id => s.tableName id
  | .struct id => s.structName id

end Schema
end FlatTable

import FlatTable.Schema.Basic

/-! Why a schema, or the description of one, is refused. -/
namespace FlatTable

inductive NameKind where
  | enum
  | enumerator
  | struct
  | member
  | table
  | field

inductive ReferenceKind where
  | enum
  | struct
  | table
  | root

/-- Names of fields, members and enumerators are given with what holds them. -/
inductive SchemaError where
  | malformed
  | duplicateName (kind : NameKind) (name : String)
  | unknownType (field type : String)
  | invalidEnumUnderlying (enum type : String)
  | invalidEnumValue (enum name : String) (value : Int)
  | invalidDefault (field text : String)
  | unknownRootType (name : String)
  | invalidReference (kind : ReferenceKind) (id : Nat)
  | tooManyFields (table : String) (count : Nat)
  | emptyStruct (name : String)

def NameKind.text : NameKind → String
  | enum => "enum"
  | enumerator => "enum value"
  | struct => "struct"
  | member => "struct member"
  | table => "table"
  | field => "field"

def ReferenceKind.text : ReferenceKind → String
  | enum => "enum"
  | struct => "struct"
  | table => "table"
  | root => "root table"

def SchemaError.message : SchemaError → String
  | malformed => "invalid schema description: not the JSON description of a schema"
  | duplicateName kind name => s!"duplicate {kind.text} name '{name}'"
  | unknownType field type => s!"field '{field}' has unknown type '{type}'"
  | invalidEnumUnderlying enum type => s!"enum '{enum}' has non-integer underlying type '{type}'"
  | invalidEnumValue enum name value =>
    s!"enum '{enum}' value {name} = {value} does not fit its underlying type"
  | invalidDefault field text => s!"field '{field}' has invalid default '{text}'"
  | unknownRootType name => s!"root_type '{name}' is not a table"
  | invalidReference kind id => s!"{kind.text} index {id} is out of range"
  | tooManyFields table count =>
    s!"table '{table}' has {count} fields, more than a vtable can hold"
  | emptyStruct name => s!"struct '{name}' has no members"

end FlatTable

import FlatTable.Schema.Basic
import FlatTable.Text.Blank

/-! Schemas in the language of `.fbs` files. -/
namespace FlatTable
open Text

def braced (head : String) (lines : List String) : String :=
  head ++ " \x7b\n" ++ String.join lines ++ "\x7d"

def EnumDef.text (e : EnumDef) : String :=
  let values := e.values.map fun v => v.name ++ " = " ++ toString v.value
  s!"enum {e.name} : {e.underlying.name} \x7b " ++ String.intercalate ", " values ++ " \x7d"

def StructDef.text (s : StructDef) : String :=
  braced ("struct " ++ s.name) (s.members.map fun m => s!"  {m.name}: {m.type.name};\n")

namespace Schema

def defaultText (s : Schema) (t : FieldType) (v : Value) : String :=
  let named := match t with
    | .enum id => s.enums[id]?.bind fun e => v.asLong?.bind e.nameOf?
    | _ => none
  named.getD v.text

def fieldText (s : Schema) (f : FieldDef) : String :=
  let value := match f.declared with
    | some v => " = " ++ s.defaultText f.type v
    | none => ""
  let attributes := (if f.deprecated then ["deprecated"] else []) ++ f.attributes
  let suffix := if attributes.isEmpty then "" else " (" ++ String.intercalate ", " attributes ++ ")"
  f.name ++ ": " ++ s.typeName f.type ++ value ++ suffix

def tableText (s : Schema) (t : TableDef) : String :=
  braced ("table " ++ t.name) (t.fields.toList.map fun f => "  " ++ s.fieldText f ++ ";\n")

def text (s : Schema) : String :=
  let nameSpace :=
    if trimString s.nameSpace = "" then "" else "namespace " ++ s.nameSpace ++ ";\n\n"
  let attributes := String.join (s.attributes.map fun a => "attribute \"" ++ a ++ "\";\n")
  let gap := if s.attributes.isEmpty then "" else "\n"
  let blocks := s.enums.toList.map EnumDef.text ++ s.structs.toList.map StructDef.text ++
    s.tables.toList.map s.tableText
  let root := match s.rootTable?.bind fun id => s.tables[id]? with
    | some t => "root_type " ++ t.name ++ ";\n"
    | none => ""
  trimStringEnd (nameSpace ++ attributes ++ gap ++ String.join (blocks.map (· ++ "\n")) ++ root)

end Schema
end FlatTable

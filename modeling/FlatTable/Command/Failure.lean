import FlatTable.Command.Program
import FlatTable.Schema.Error
import FlatTable.Verify.Error

/-! Why a command fails. -/
namespace FlatTable.CommandLine
open Text

inductive Failure where
  | read (what : String) (e : FileError)
  | notText (what : String)
  | write (path : String) (e : FileError)
  | create (path : String) (e : FileError)
  | schema (path : String) (e : SchemaError)
  | malformedInput
  | identifierLength (text : String)
  | noTables
  | noRoot
  | build (e : BuildError)
  | refused (file : String) (e : VerifyError)
  | invalidated (e : VerifyError)
  | unreadable (e : VerifyError)
  | noValue (text : String)
  | badIndex (text : String)
  | noField (table field : String)
  | noStruct (field : String)
  | noMember (struct member : String)
  | notStruct (field : String)
  | notVector (field : String)
  | notScalarVector (field : String)
  | invalidValue (text type : String)
  | notStored (text : String)
  | sample (text : String)

def Failure.chain : Failure → List String
  | read what e => ["reading " ++ what, e.message]
  | notText what => ["reading " ++ what, "stream did not contain valid UTF-8"]
  | write path e => ["writing " ++ path, e.message]
  | create path e => ["creating " ++ path, e.message]
  | schema path e => ["loading schema " ++ path, e.message]
  | malformedInput => ["parsing JSON input", "not a JSON document"]
  | identifierLength text =>
    [s!"file identifier must be exactly {Layout.identifierSize} bytes, got {quoted text}"]
  | noTables => ["schema has no tables"]
  | noRoot => ["root table missing from schema"]
  | build e => e.message :: e.cause?.toList
  | refused file e => [file ++ " failed verification", e.message]
  | invalidated e => ["buffer no longer verifies after mutation", e.message]
  | unreadable e => ["reading character", e.message]
  | noValue text => ["expected FIELD=VALUE, got " ++ quoted text]
  | badIndex text => ["bad index in " ++ quoted text]
  | noField table field => [s!"table '{table}' has no field '{field}'"]
  | noStruct field => [s!"struct of '{field}' missing from schema"]
  | noMember struct member => [s!"struct '{struct}' has no member '{member}'"]
  | notStruct field => [s!"'{field}' is not a struct"]
  | notVector field => [s!"'{field}' is not a vector"]
  | notScalarVector field => [s!"'{field}' is not a scalar vector"]
  | invalidValue text type => [quoted text ++ " is not a valid " ++ type]
  | notStored text =>
    ["can't mutate " ++ quoted text ++ ": only fields present in the buffer can change"]
  | sample text => [text]

def Failure.message (f : Failure) : String := String.intercalate ": " f.chain

end FlatTable.CommandLine

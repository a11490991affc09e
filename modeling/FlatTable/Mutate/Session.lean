import FlatTable.Crc32
import FlatTable.Mutate.Table
import FlatTable.Verify.Basic

/-! A verified buffer that is being changed. A fingerprint of the bytes tells whether they are still
those that were verified. -/
namespace FlatTable

/-- Bytes that are taken for verified, and where their root is. -/
structure VerifiedBuffer where
  buffer : Buffer
  schema : Schema
  root : Root

structure Session where
  verifier : Verifier
  buffer : Buffer
  root : Root
  fingerprint : UInt32

namespace Session

def start (v : Verifier) (b : Buffer) : Except VerifyError Session := do
  return ⟨v, b, ← v.verify b, Crc32.checksum b⟩

def rootView (s : Session) : TableView := ⟨s.buffer, s.root.position⟩

def rootTable (s : Session) : MutableTable :=
  ⟨s.verifier.schema, s.buffer, s.root.position, s.root.table⟩

/-- Do the bytes differ from those that were verified, as far as the fingerprint tells? -/
def isMutated (s : Session) : Bool := Crc32.checksum s.buffer != s.fingerprint

/-- Verifies the bytes again, with the same options and the same root table. -/
def reverify (s : Session) : Except VerifyError Session :=
  start { s.verifier with rootTable := some s.root.table } s.buffer

def update (s : Session) (result : Option Buffer) : Session :=
  { s with buffer := result.getD s.buffer }

/-- Gives up changing the bytes. Nothing is checked again. -/
def intoVerified (s : Session) : VerifiedBuffer := ⟨s.buffer, s.verifier.schema, s.root⟩

end Session
end FlatTable

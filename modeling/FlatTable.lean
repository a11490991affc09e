import FlatTable.Main
import FlatTable.Command.FileSystem
import FlatTable.Proofs.Builder.ReadsBack
import FlatTable.Proofs.Mutate.Changes
import FlatTable.Proofs.Verify.Exact
import FlatTable.Proofs.Mutate.Writes
import FlatTable.Proofs.Builder.Areas
import FlatTable.Proofs.Mutate.Cells
import FlatTable.Proofs.Mutate.Isolation
import FlatTable.Proofs.Builder.Isolated
import FlatTable.Proofs.Convert.Normal
import FlatTable.Proofs.Convert.Shown
import FlatTable.Proofs.Convert.Imported
import FlatTable.Proofs.Builder.Counted
import FlatTable.Proofs.Convert.RoundTrip
import FlatTable.Proofs.Json.Objects
import FlatTable.Proofs.Scalar.Rounding
import FlatTable.Proofs.Scalar.Shown
import FlatTable.Proofs.Convert.Canonical
import FlatTable.Proofs.Convert.Survives
import FlatTable.Proofs.Builder.Lockstep
import FlatTable.Proofs.Convert.Composed
import FlatTable.Proofs.Script.Basic
import FlatTable.Proofs.Script.Storages
import FlatTable.Proofs.Builder.Roomy
import FlatTable.Proofs.Convert.Asked
import FlatTable.Proofs.Script.Kept
import FlatTable.Proofs.Mutate.Unavailable
import FlatTable.Proofs.Mutate.Fingerprint
import FlatTable.Proofs.Builder.Declared
import FlatTable.Proofs.Script.Failures
import FlatTable.Proofs.Script.Defaults
import FlatTable.Proofs.Nesting
import FlatTable.Proofs.Evolution.Accepted
import FlatTable.Proofs.Verify.Truncated
import FlatTable.Proofs.Builder.Ends
import FlatTable.Proofs.Convert.Truncated
import FlatTable.Proofs.Character.Draft
import FlatTable.Proofs.Truncated
import FlatTable.Proofs.Character.Encoded
import FlatTable.Proofs.Mutate.Getters
import FlatTable.Proofs.Character.Reading
import FlatTable.Proofs.Character.Stored
import FlatTable.Proofs.Mutate.Granted
import FlatTable.Proofs.Character.Changes
import FlatTable.Proofs.Command.Building
import FlatTable.Proofs.Command.Revision
import FlatTable.Proofs.Renaming.Order
import FlatTable.Proofs.Arena.Runs
import FlatTable.Proofs.View.Continued
import FlatTable.Proofs.Schema.Closed
import FlatTable.Proofs.Scalar.Exact
import FlatTable.Proofs.Builder.Distances
import FlatTable.Proofs.Builder.Returned
import FlatTable.Proofs.View.Typed
import FlatTable.Proofs.Scalar.Defaults
import FlatTable.Proofs.Convert.Numbers
import FlatTable.Proofs.Command.Assignment
import FlatTable.Proofs.Schema.Counted
import FlatTable.Proofs.Schema.TypeNames
import FlatTable.Proofs.Mutate.Entries
import FlatTable.Proofs.Schema.Structs
import FlatTable.Proofs.Builder.Parts
import FlatTable.Proofs.Arena.Appended

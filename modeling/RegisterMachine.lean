import RegisterMachine.Main
import RegisterMachine.Proofs.Atoms
import RegisterMachine.Proofs.Bindings
import RegisterMachine.Proofs.Labels
import RegisterMachine.Proofs.Life
import RegisterMachine.Proofs.Performing
import RegisterMachine.Proofs.Resolve
import RegisterMachine.Proofs.Bounds
import RegisterMachine.Proofs.Checked
import RegisterMachine.Proofs.Building
import RegisterMachine.Proofs.Interpreter
import RegisterMachine.Proofs.Refinement
import RegisterMachine.Proofs.Words
import RegisterMachine.Proofs.Scanning
import RegisterMachine.Proofs.Echo
import RegisterMachine.Proofs.Numerals
import RegisterMachine.Proofs.Legible
import RegisterMachine.Proofs.Grammar
import RegisterMachine.Proofs.ReadBack
import RegisterMachine.Proofs.Codec
import RegisterMachine.Proofs.Image
import RegisterMachine.Proofs.RoundTrip
import RegisterMachine.Proofs.Derivation
import RegisterMachine.Proofs.Parsing
import RegisterMachine.Proofs.Faults
import RegisterMachine.Proofs.Truncation
import RegisterMachine.Proofs.History
import RegisterMachine.Proofs.Meaning
import RegisterMachine.Proofs.Failing
import RegisterMachine.Proofs.Limits
import RegisterMachine.Proofs.Executing
import RegisterMachine.Proofs.Nesting
import RegisterMachine.Proofs.Ready
import RegisterMachine.Proofs.Positions
import RegisterMachine.Proofs.Alike
import RegisterMachine.Proofs.Numbering
import RegisterMachine.Proofs.Growth
import RegisterMachine.Proofs.Untouched
import RegisterMachine.Proofs.Table
import RegisterMachine.Proofs.Capacity
import RegisterMachine.Proofs.BuiltImage
import RegisterMachine.Proofs.Spelling
import RegisterMachine.Proofs.StackHistory
import RegisterMachine.Proofs.Statistics
import RegisterMachine.Proofs.Stopping
import RegisterMachine.Proofs.InTime
import RegisterMachine.Proofs.Refusal
import RegisterMachine.Proofs.Forward
import RegisterMachine.Proofs.Layout
import RegisterMachine.Proofs.Joining
import RegisterMachine.Proofs.Calls
import RegisterMachine.Proofs.Settings
import RegisterMachine.Proofs.NameTables
import RegisterMachine.Proofs.ImagePath

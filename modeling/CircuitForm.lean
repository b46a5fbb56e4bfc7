import CircuitForm.Command.Invocation
import CircuitForm.Command.Option
import CircuitForm.Command.Run
import CircuitForm.Command.Style
import CircuitForm.Descriptor.Basic
import CircuitForm.Descriptor.Decoder
import CircuitForm.Descriptor.Json
import CircuitForm.Descriptor.Nested
import CircuitForm.Disk.Basic
import CircuitForm.Disk.FileTree
import CircuitForm.Disk.Glob
import CircuitForm.Disk.Pattern
import CircuitForm.Filter.Basic
import CircuitForm.Filter.Calculation
import CircuitForm.Filter.Eval
import CircuitForm.Filter.Parser
import CircuitForm.Filter.Token
import CircuitForm.Input.Check
import CircuitForm.Input.Error
import CircuitForm.Input.InvalidPaths
import CircuitForm.Input.Literal
import CircuitForm.Input.Replacement
import CircuitForm.Input.Synthesis
import CircuitForm.Input.Tree
import CircuitForm.Json.Basic
import CircuitForm.Json.Decoder
import CircuitForm.Json.Fault
import CircuitForm.Json.Numeral
import CircuitForm.Json.Order
import CircuitForm.Json.Pointer
import CircuitForm.Json.Printer
import CircuitForm.Json.Reader
import CircuitForm.Json.Scan
import CircuitForm.Json.Shortest
import CircuitForm.Json.Skip
import CircuitForm.Json.Structure
import CircuitForm.Path.Basic
import CircuitForm.Path.Json
import CircuitForm.Path.Parser
import CircuitForm.Program.Basic
import CircuitForm.Program.Json
import CircuitForm.Program.Loader
import CircuitForm.Session.Basic
import CircuitForm.Session.Stage
import CircuitForm.Text.Blank
import CircuitForm.Text.Bytes
import CircuitForm.Text.Digit
import CircuitForm.Text.Quoted
import CircuitForm.Text.Unprintable
import CircuitForm.Word
import CircuitForm.Main
import CircuitForm.Proofs.Entries
import CircuitForm.Proofs.Descriptor.DistinctNames
import CircuitForm.Proofs.Input.Fits
import CircuitForm.Proofs.Input.Synthesis
import CircuitForm.Proofs.Input.Coercion
import CircuitForm.Proofs.Input.Replacement
import CircuitForm.Proofs.Path.Order
import CircuitForm.Proofs.Input.InvalidPaths
import CircuitForm.Proofs.Session.Run
import CircuitForm.Proofs.Session.Conformance
import CircuitForm.Proofs.Session.Gate
import CircuitForm.Proofs.Session.Staleness
import CircuitForm.Proofs.Session.Exchange
import CircuitForm.Proofs.Input.Leaves
import CircuitForm.Proofs.Input.Canonical
import CircuitForm.Proofs.Input.Descent
import CircuitForm.Proofs.Input.Refusal
import CircuitForm.Proofs.Input.Document
import CircuitForm.Proofs.Input.Seeding
import CircuitForm.Proofs.Json.NumberText
import CircuitForm.Proofs.Json.Token
import CircuitForm.Proofs.Json.Row
import CircuitForm.Proofs.Json.RoundTrip
import CircuitForm.Proofs.Json.Forms
import CircuitForm.Proofs.Input.Text
import CircuitForm.Proofs.Input.RawText
import CircuitForm.Proofs.Session.Retyping
import CircuitForm.Proofs.Json.Depth
import CircuitForm.Proofs.Descriptor.Decoding
import CircuitForm.Proofs.Program.Loading
import CircuitForm.Proofs.Session.SavedInputs
import CircuitForm.Proofs.Input.Locality
import CircuitForm.Proofs.Session.Independence
import CircuitForm.Proofs.Session.Failure
import CircuitForm.Proofs.Session.Switching
import CircuitForm.Proofs.Input.Enumeration
import CircuitForm.Proofs.Session.LeafEdits
import CircuitForm.Proofs.Input.OneStruct
import CircuitForm.Proofs.Json.Consumption
import CircuitForm.Proofs.Json.Skipping
import CircuitForm.Proofs.Json.Written
import CircuitForm.Proofs.Json.Reading
import CircuitForm.Proofs.Json.Arrangement
import CircuitForm.Proofs.Descriptor.Encoding
import CircuitForm.Proofs.Descriptor.Spelling
import CircuitForm.Proofs.Program.Spelling
import CircuitForm.Proofs.Program.Layouts
import CircuitForm.Proofs.Input.Readers
import CircuitForm.Proofs.Input.ReplacementLaws
import CircuitForm.Proofs.Path.Grammar
import CircuitForm.Proofs.Input.LocalCheck
import CircuitForm.Proofs.Input.Relative
import CircuitForm.Proofs.Input.Failing
import CircuitForm.Proofs.Input.Report
import CircuitForm.Proofs.Input.CarryForward
import CircuitForm.Proofs.Path.Display
import CircuitForm.Proofs.Path.Serialized
import CircuitForm.Proofs.Json.NumberReading
import CircuitForm.Proofs.Json.NumberValue
import CircuitForm.Proofs.Input.NumberCheck
import CircuitForm.Proofs.Input.Codec
import CircuitForm.Proofs.Session.FirstError
import CircuitForm.Proofs.Input.KeyOrder
import CircuitForm.Proofs.Descriptor.Nested
import CircuitForm.Proofs.Command.LeafLines
import CircuitForm.Proofs.Session.Pipeline
import CircuitForm.Proofs.Input.Marking
import CircuitForm.Proofs.Json.Nodes
import CircuitForm.Proofs.Input.FirstNull
import CircuitForm.Proofs.Session.Anchoring

import TypedStack.Bytes
import TypedStack.CommandLine.Arguments
import TypedStack.CommandLine.Directory
import TypedStack.CommandLine.Files
import TypedStack.CommandLine.Report
import TypedStack.Container.Basic
import TypedStack.Container.Reader
import TypedStack.Container.Writer
import TypedStack.Conversion
import TypedStack.Fixture.CreationOrder
import TypedStack.Fixture.Error
import TypedStack.Fixture.Prepare
import TypedStack.Fixture.Schema
import TypedStack.Floating.Format
import TypedStack.Floating.Rounding
import TypedStack.Floating.Shortest
import TypedStack.Heap.Object
import TypedStack.Heap.Shared
import TypedStack.Heap.Store
import TypedStack.Image
import TypedStack.Instruction
import TypedStack.Instruction.Assembly
import TypedStack.Instruction.Decoding
import TypedStack.Instruction.Encoding
import TypedStack.Json.Basic
import TypedStack.Json.Number
import TypedStack.Json.Reader
import TypedStack.Json.Token
import TypedStack.Kind
import TypedStack.Listing
import TypedStack.Machine.Action
import TypedStack.Machine.Basic
import TypedStack.Machine.Frame
import TypedStack.Machine.Run
import TypedStack.Machine.Slots
import TypedStack.Machine.Stack
import TypedStack.Machine.Transition
import TypedStack.Main
import TypedStack.Opcode
import TypedStack.Program
import TypedStack.Text.Blank
import TypedStack.Text.Digits
import TypedStack.Text.Words
import TypedStack.Trap
import TypedStack.Value
import TypedStack.Value.Render
import TypedStack.Proofs.Machine.Atomicity
import TypedStack.Proofs.Machine.Reachable
import TypedStack.Proofs.Machine.Termination
import TypedStack.Proofs.Machine.Composition
import TypedStack.Proofs.Listing
import TypedStack.Proofs.Machine.WellFormed
import TypedStack.Proofs.Machine.Effects
import TypedStack.Proofs.Machine.Depth
import TypedStack.Proofs.Machine.ControlFlow
import TypedStack.Proofs.Heap.Consistency
import TypedStack.Proofs.Heap.History
import TypedStack.Proofs.Heap.Freshness
import TypedStack.Proofs.Heap.Representation
import TypedStack.Proofs.Heap.Script
import TypedStack.Proofs.Heap.Policies
import TypedStack.Proofs.Machine.References
import TypedStack.Proofs.Heap.Relocation
import TypedStack.Proofs.Machine.Relocation
import TypedStack.Proofs.Instruction.Forms
import TypedStack.Proofs.Instruction.Truncation
import TypedStack.Proofs.Instruction.Stream
import TypedStack.Proofs.Except
import TypedStack.Proofs.Container.Reading
import TypedStack.Proofs.Container.StringTable
import TypedStack.Proofs.Container.Format
import TypedStack.Proofs.Container.Delimiting
import TypedStack.Proofs.Container.RoundTrip
import TypedStack.Proofs.Machine.Limits
import TypedStack.Proofs.Machine.BoundedStack
import TypedStack.Proofs.Fixture.Preparing
import TypedStack.Proofs.Fixture.CreationOrder
import TypedStack.Proofs.Fixture.Building
import TypedStack.Proofs.Image
import TypedStack.Proofs.Text
import TypedStack.Proofs.Instruction.Assembly
import TypedStack.Proofs.Instruction.Walks
import TypedStack.Proofs.Text.Grammar
import TypedStack.Proofs.Instruction.Grammar
import TypedStack.Proofs.Instruction.Lines
import TypedStack.Proofs.Floating.Exact
import TypedStack.Proofs.Floating.Nearest
import TypedStack.Proofs.Floating.Half
import TypedStack.Proofs.Floating.Integers
import TypedStack.Proofs.Conversion
import TypedStack.Proofs.Conversion.Agreement
import TypedStack.Proofs.Conversion.Wrapping
import TypedStack.Proofs.Conversion.Crossing
import TypedStack.Proofs.Fixture.Realisation
import TypedStack.Proofs.Fixture.Faithful
import TypedStack.Machine.Shared
import TypedStack.Proofs.Fixture.Rearrangement
import TypedStack.Proofs.Sharing.Texts
import TypedStack.Proofs.Machine.MainFunction
import TypedStack.Proofs.Sharing.Hosts
import TypedStack.Proofs.Container.Faults
import TypedStack.Proofs.Machine.Log
import TypedStack.Proofs.Machine.SlotHistory
import TypedStack.Floating.Half

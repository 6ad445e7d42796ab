import BytecodeMachine.Assembly
import BytecodeMachine.CommandLine.Launch
import BytecodeMachine.CommandLine.Options
import BytecodeMachine.CommandLine.ReadFailure
import BytecodeMachine.CommandLine.Stepper
import BytecodeMachine.CommandLine.TypedLine
import BytecodeMachine.Condition
import BytecodeMachine.Elements.Layout
import BytecodeMachine.Elements.Store
import BytecodeMachine.Execution.Dispatch
import BytecodeMachine.Execution.Resolve
import BytecodeMachine.Execution.Stack
import BytecodeMachine.Execution.Stream
import BytecodeMachine.Execution.Transfer
import BytecodeMachine.Execution.Transport
import BytecodeMachine.Fault
import BytecodeMachine.Floating.Decimal
import BytecodeMachine.Floating.Format
import BytecodeMachine.Floating.Operation
import BytecodeMachine.Host.Basic
import BytecodeMachine.Host.Elements
import BytecodeMachine.Image
import BytecodeMachine.Instruction.Basic
import BytecodeMachine.Instruction.Text
import BytecodeMachine.Integer.Operation
import BytecodeMachine.Interface.Manifest
import BytecodeMachine.Interface.Table
import BytecodeMachine.Label
import BytecodeMachine.Listing
import BytecodeMachine.LittleEndian
import BytecodeMachine.Machine
import BytecodeMachine.Main
import BytecodeMachine.Memory.Basic
import BytecodeMachine.Memory.Tree
import BytecodeMachine.Opcode.Basic
import BytecodeMachine.Opcode.Layout
import BytecodeMachine.Opcode.Text
import BytecodeMachine.Operand.Basic
import BytecodeMachine.Operand.Text
import BytecodeMachine.Region
import BytecodeMachine.RegisterMask
import BytecodeMachine.Registers
import BytecodeMachine.Report
import BytecodeMachine.Run
import BytecodeMachine.Snapshot
import BytecodeMachine.State
import BytecodeMachine.Status
import BytecodeMachine.Text.Blank
import BytecodeMachine.Text.Cluster
import BytecodeMachine.Text.CodeRanges
import BytecodeMachine.Text.Conjunct
import BytecodeMachine.Text.Control
import BytecodeMachine.Text.Invisible
import BytecodeMachine.Text.Json
import BytecodeMachine.Text.Lines
import BytecodeMachine.Text.Mark
import BytecodeMachine.Text.Pictograph
import BytecodeMachine.Text.Quoted
import BytecodeMachine.Text.Radix
import BytecodeMachine.Text.Unassigned
import BytecodeMachine.Width
import BytecodeMachine.Proofs.Execution.Fetch
import BytecodeMachine.Proofs.Operand.Denotation
import BytecodeMachine.Proofs.Instruction.Boundary
import BytecodeMachine.Proofs.Elements.Bitmap
import BytecodeMachine.Proofs.Elements.Fresh
import BytecodeMachine.Proofs.Elements.SlotSet
import BytecodeMachine.Proofs.Execution.Standing
import BytecodeMachine.Proofs.Run.Stepping
import BytecodeMachine.Proofs.Instruction.Decoding
import BytecodeMachine.Proofs.Instruction.Effect
import BytecodeMachine.Proofs.Instruction.Outcome
import BytecodeMachine.Proofs.Instruction.Confinement
import BytecodeMachine.Proofs.Instruction.Atomicity
import BytecodeMachine.Proofs.Host.Conduct
import BytecodeMachine.Proofs.Run.ControlState
import BytecodeMachine.Proofs.Instruction.Calls
import BytecodeMachine.Proofs.Run.ShadowStack
import BytecodeMachine.Proofs.Operand.Codec
import BytecodeMachine.Proofs.Assembly.Emission
import BytecodeMachine.Proofs.Assembly.Restoration
import BytecodeMachine.Proofs.Elements.Isolation
import BytecodeMachine.Proofs.Run.Nesting
import BytecodeMachine.Proofs.Execution.Latch
import BytecodeMachine.Proofs.Instruction.Places
import BytecodeMachine.Proofs.Run.Forgetting
import BytecodeMachine.Proofs.Operand.RoundTrip
import BytecodeMachine.Proofs.Integer.Exact
import BytecodeMachine.Proofs.Integer.Stored
import BytecodeMachine.Proofs.Run.FaultRecords
import BytecodeMachine.Proofs.Assembly.Resolution
import BytecodeMachine.Proofs.Instruction.Branches
import BytecodeMachine.Proofs.Assembly.Targets
import BytecodeMachine.Proofs.Instruction.RelativeTransfers
import BytecodeMachine.Proofs.Instruction.Blocks
import BytecodeMachine.Proofs.Run.Frames
import BytecodeMachine.Proofs.Instruction.Conditions
import BytecodeMachine.Proofs.Host.ElementContract
import BytecodeMachine.Proofs.Elements.Damage
import BytecodeMachine.Proofs.Listing.Partition
import BytecodeMachine.Proofs.Run.CountedLoops
import BytecodeMachine.Proofs.Text.Numerals
import BytecodeMachine.Proofs.CommandLine.Grammar
import BytecodeMachine.Proofs.Memory.TypedViews
import BytecodeMachine.Proofs.Operand.Unambiguous

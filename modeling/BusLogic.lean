import BusLogic.Attempt
import BusLogic.Opcode
import BusLogic.Expression.Category
import BusLogic.Error
import BusLogic.Bus
import BusLogic.Word
import BusLogic.Random.Cipher
import BusLogic.Random.Generator
import BusLogic.Digest.Compress
import BusLogic.Digest.Tree
import BusLogic.Text.Blank
import BusLogic.Text.Numeral
import BusLogic.Text.Column
import BusLogic.Json.Basic
import BusLogic.Json.Reader
import BusLogic.Settings
import BusLogic.Netlist.Basic
import BusLogic.Netlist.Wiring
import BusLogic.Netlist.Tick
import BusLogic.Netlist.Snapshot
import BusLogic.Netlist.Export
import BusLogic.Expression.Basic
import BusLogic.Expression.Signal
import BusLogic.Script.Statement
import BusLogic.Script.Scan
import BusLogic.Script.Reader
import BusLogic.Script.Line
import BusLogic.Script.Session
import BusLogic.Script.Run
import BusLogic.Script.Execute
import BusLogic.Script.Source
import BusLogic.Command.Stimulus
import BusLogic.Command.Arguments
import BusLogic.Command.Action
import BusLogic.Main
import BusLogic.Proofs.Attempt
import BusLogic.Proofs.Change
import BusLogic.Proofs.Netlist.Growth
import BusLogic.Proofs.Netlist.Tick
import BusLogic.Proofs.Netlist.Driving
import BusLogic.Proofs.Netlist.Tally
import BusLogic.Proofs.Netlist.Lockstep
import BusLogic.Proofs.Netlist.Room
import BusLogic.Proofs.Netlist.Settling
import BusLogic.Proofs.Bus
import BusLogic.Proofs.Netlist.Forms
import BusLogic.Proofs.Netlist.Wiring
import BusLogic.Proofs.Netlist.Pairing
import BusLogic.Proofs.Netlist.Refusals
import BusLogic.Proofs.Netlist.Fitting
import BusLogic.Proofs.Expression.Steps
import BusLogic.Proofs.Script.Growth
import BusLogic.Proofs.Script.Run
import BusLogic.Proofs.Script.Soundness
import BusLogic.Proofs.Script.Ample
import BusLogic.Proofs.Script.Opening
import BusLogic.Proofs.Script.Steps
import BusLogic.Proofs.Script.Blocks
import BusLogic.Proofs.Script.Beside
import BusLogic.Proofs.Script.Copies
import BusLogic.Proofs.Expression.Phrase
import BusLogic.Proofs.Expression.Precedence
import BusLogic.Proofs.Script.Reference
import BusLogic.Proofs.Script.Levels
import BusLogic.Proofs.Netlist.Multiplexer
import BusLogic.Proofs.Netlist.Elementwise
import BusLogic.Proofs.Netlist.Reduction
import BusLogic.Proofs.Script.Formula
import BusLogic.Proofs.Script.Combinational
import BusLogic.Proofs.Script.Meaning
import BusLogic.Proofs.Script.Substitution
import BusLogic.Proofs.Script.Flow
import BusLogic.Proofs.Script.Unrolling
import BusLogic.Proofs.Expression.Stacks
import BusLogic.Proofs.Expression.History
import BusLogic.Proofs.Netlist.Adder
import BusLogic.Proofs.Script.Faults
import BusLogic.Proofs.Script.Selection
import BusLogic.Proofs.Script.Room
import BusLogic.Proofs.Script.Constructs
import BusLogic.Proofs.Script.Execution
import BusLogic.Proofs.Script.Carried
import BusLogic.Proofs.Script.Cursor
import BusLogic.Proofs.Script.Placement
import BusLogic.Proofs.Text
import BusLogic.Proofs.Script.Joining
import BusLogic.Proofs.Script.Adder
import BusLogic.Proofs.Script.Splicing
import BusLogic.Proofs.Script.Frame
import BusLogic.Proofs.Netlist.Encoding
import BusLogic.Proofs.Script.Tokens
import BusLogic.Proofs.Script.Wording
import BusLogic.Proofs.Slicing
import BusLogic.Proofs.Abreast
import BusLogic.Proofs.Script.Layout
import BusLogic.Proofs.Script.SlotLoops
import BusLogic.Proofs.Command.Stimulus
import BusLogic.Proofs.Netlist.Dumps
import BusLogic.Proofs.Checked.Basic
import BusLogic.Proofs.Checked.Build

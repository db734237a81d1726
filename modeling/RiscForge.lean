import RiscForge.Lib.BitEnum
import RiscForge.Lib.Run
import RiscForge.Lib.Effect
import RiscForge.Lib.Verdict
import RiscForge.Lib.PyInt
import RiscForge.Lib.PyStr
import RiscForge.Lib.HexText
import RiscForge.Lib.IntText
import RiscForge.Lib.Pattern
import RiscForge.Lib.Sprinkle
import RiscForge.Lib.LittleEndian
import RiscForge.Lib.SignExtend
import RiscForge.Lib.Align
import RiscForge.Rtl.Pkg
import RiscForge.Rtl.Units
import RiscForge.Rtl.Decode
import RiscForge.Rtl.Memory
import RiscForge.Rtl.Top
import RiscForge.Rtl.TopPipeline
import RiscForge.Rtl.Simulation
import RiscForge.Rtl.Operands
import RiscForge.Rtl.SimulationStep
import RiscForge.Rtl.PipelineRun
import RiscForge.Rtl.Timing
import RiscForge.Rtl.Refinement
import RiscForge.Rtl.CycleLaw
import RiscForge.Rtl.HaltFinal
import RiscForge.Rtl.Freshness
import RiscForge.Isa.Insn
import RiscForge.Isa.Stmt
import RiscForge.Rtl.Lanes
import RiscForge.Rtl.TopSpec
import RiscForge.Refmodel.Encoding
import RiscForge.Refmodel.Rv32i
import RiscForge.Refmodel.Bits
import RiscForge.Refmodel.Access
import RiscForge.Refmodel.StepSpec
import RiscForge.Refmodel.Reports
import RiscForge.Refmodel.Frame
import RiscForge.Refmodel.Invariant
import RiscForge.Refmodel.TrapReturn
import RiscForge.Lockstep.Legality
import RiscForge.Lockstep.Agree
import RiscForge.Lockstep.Step
import RiscForge.Lockstep.Run
import RiscForge.Lockstep.Misaligned
import RiscForge.Lockstep.Fetch
import RiscForge.Lockstep.Reported
import RiscForge.Lockstep.DataMemory
import RiscForge.Assembler.Source
import RiscForge.Assembler.Encode
import RiscForge.Assembler.Assemble
import RiscForge.Assembler.Accepted
import RiscForge.Assembler.Placement
import RiscForge.Assembler.Emission
import RiscForge.Assembler.Overlap
import RiscForge.Assembler.Words
import RiscForge.Assembler.Faithful
import RiscForge.Assembler.Indexing
import RiscForge.Assembler.Relocation
import RiscForge.Assembler.Checks
import RiscForge.Assembler.Errors
import RiscForge.Assembler.Fields
import RiscForge.Assembler.Inverse
import RiscForge.Assembler.Transfer
import RiscForge.Assembler.TwoWord
import RiscForge.Assembler.Meaning
import RiscForge.Assembler.Correct
import RiscForge.Assembler.Literals
import RiscForge.Assembler.Forms
import RiscForge.Assembler.FormChecks
import RiscForge.Assembler.Acceptance
import RiscForge.Gate.EncodingCheck
import RiscForge.Gate.Comments
import RiscForge.Gate.Constants
import RiscForge.Gate.Drift
import RiscForge.Lib.Steps
import RiscForge.Lib.Bubble
import RiscForge.Refmodel.Run
import RiscForge.Isa.Machine
import RiscForge.Rtl.Throughput
import RiscForge.Assembler.Readings
import RiscForge.Assembler.Program
import RiscForge.Assembler.Reader
import RiscForge.System.Emulator
import RiscForge.System.Cores
import RiscForge.System.Image
import RiscForge.System.Source
import RiscForge.System.Assembled
import RiscForge.Benchmarks.Rules
import RiscForge.Benchmarks.Arrays
import RiscForge.Benchmarks.Mul
import RiscForge.Benchmarks.Matvec
import RiscForge.Benchmarks.Texts
import RiscForge.System.Harness
import RiscForge.Benchmarks.Loops
import RiscForge.Benchmarks.Sort
import RiscForge.Benchmarks.Programs
import RiscForge.Refmodel.Runner
import RiscForge.System.Conformance
import RiscForge.System.Execution
import RiscForge.System.SingleCycle
import RiscForge.System.Verdicts

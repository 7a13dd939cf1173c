import RiscvHart.Word.Bytes
import RiscvHart.Word.Fields
import RiscvHart.Word.Pattern
import RiscvHart.Text.Ratio
import RiscvHart.Random.ChaCha
import RiscvHart.Register.Bank
import RiscvHart.Isa.Decoder
import RiscvHart.Isa.Action
import RiscvHart.Isa.Assembly
import RiscvHart.Memory.Cells
import RiscvHart.Memory.Basic
import RiscvHart.Program.Loader
import RiscvHart.Machine.Basic
import RiscvHart.Machine.Channel
import RiscvHart.Machine.Perform
import RiscvHart.Kernel.Host
import RiscvHart.Kernel.Heap
import RiscvHart.Kernel.Calls
import RiscvHart.Kernel.Bootstrap
import RiscvHart.Hart.Basic
import RiscvHart.Hart.Summary
import RiscvHart.Debugger.Session
import RiscvHart.Observe.Trace
import RiscvHart.Observe.Stats
import RiscvHart.Kernel.Script
import RiscvHart.Machine.Loading
import RiscvHart.Files.Host
import RiscvHart.Usage.Parse
import RiscvHart.Console.Session
import RiscvHart.Shell.Run
import RiscvHart.Main
import RiscvHart.Proofs.Memory.Refinement
import RiscvHart.Proofs.Kernel.GuestRun
import RiscvHart.Proofs.Hart.Conformance
import RiscvHart.Proofs.Isa.Completeness
import RiscvHart.Proofs.Isa.RoundTrip
import RiscvHart.Proofs.Hart.Multiplication
import RiscvHart.Proofs.Isa.Access
import RiscvHart.Proofs.Kernel.Reachable
import RiscvHart.Proofs.Machine.Access
import RiscvHart.Proofs.Hart.Access
import RiscvHart.Proofs.Kernel.Calls
import RiscvHart.Proofs.Kernel.Refusals
import RiscvHart.Proofs.Hart.Faults
import RiscvHart.Proofs.Kernel.Safety
import RiscvHart.Proofs.Hart.Safety
import RiscvHart.Proofs.Kernel.HeapImage
import RiscvHart.Proofs.Kernel.StackBlock
import RiscvHart.Proofs.Kernel.ProcessImage
import RiscvHart.Proofs.Kernel.LoadedProgram
import RiscvHart.Proofs.Program.Spans
import RiscvHart.Proofs.Program.Loading
import RiscvHart.Proofs.Program.Elf
import RiscvHart.Proofs.Program.FailedLoad
import RiscvHart.Proofs.Memory.Persistence
import RiscvHart.Proofs.Machine.Account
import RiscvHart.Proofs.Hart.Events
import RiscvHart.Proofs.Debugger.AtLarge
import RiscvHart.Proofs.Debugger.Retrace
import RiscvHart.Proofs.Hart.Monitor
import RiscvHart.Proofs.Kernel.Transcript
import RiscvHart.Proofs.Kernel.Footprint
import RiscvHart.Proofs.Kernel.GatheredWrites
import RiscvHart.Proofs.Kernel.BadPointers
import RiscvHart.Proofs.Kernel.PathNames
import RiscvHart.Proofs.Kernel.Mappings
import RiscvHart.Proofs.Kernel.NextMapping
import RiscvHart.Proofs.Kernel.Break
import RiscvHart.Proofs.Isa.Precedence
import RiscvHart.Proofs.Memory.Refusal
import RiscvHart.Proofs.Kernel.FreshHeap
import RiscvHart.Proofs.Debugger.Stops
import RiscvHart.Proofs.Isa.Assembly
import RiscvHart.Proofs.Observe.Stats
import RiscvHart.Proofs.Kernel.Sums
import RiscvHart.Proofs.Console.Views
import RiscvHart.Proofs.Program.Cover
import RiscvHart.Proofs.Word.Pattern
import RiscvHart.Proofs.Isa.Immediates
import RiscvHart.Proofs.Text.Grammar

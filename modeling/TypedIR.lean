import TypedIR.Arith
import TypedIR.Build.Basic
import TypedIR.Build.Control
import TypedIR.Build.Function
import TypedIR.Build.Operand
import TypedIR.Build.Problem
import TypedIR.Build.Runtime
import TypedIR.Build.Types
import TypedIR.Build.Value
import TypedIR.Command.Execute
import TypedIR.Command.Flags
import TypedIR.Command.Reach
import TypedIR.Command.Shell
import TypedIR.Command.Words
import TypedIR.Console.Paint
import TypedIR.Console.Table
import TypedIR.Console.Timer
import TypedIR.Console.Version
import TypedIR.Decimal.Digits
import TypedIR.Decimal.Text
import TypedIR.Demo
import TypedIR.Digest
import TypedIR.Disk
import TypedIR.Double
import TypedIR.Elementary
import TypedIR.Emit
import TypedIR.Engine.Basic
import TypedIR.Engine.Compile
import TypedIR.Engine.Emitters
import TypedIR.Engine.Failure
import TypedIR.Engine.Listing
import TypedIR.Engine.Types
import TypedIR.Function
import TypedIR.Halt
import TypedIR.Image
import TypedIR.Layout
import TypedIR.Llvm.Lower
import TypedIR.Llvm.Module
import TypedIR.Llvm.Text
import TypedIR.Machine
import TypedIR.Main
import TypedIR.Memory
import TypedIR.Native.Call
import TypedIR.Native.Format
import TypedIR.Native.Library
import TypedIR.Opcode
import TypedIR.Pack.Image
import TypedIR.Pack.Item
import TypedIR.Proofs.Reps
import TypedIR.Proofs.Emitting
import TypedIR.Proofs.Engines
import TypedIR.Proofs.History
import TypedIR.Proofs.LayoutAnswers
import TypedIR.Proofs.MachineRuns
import TypedIR.Proofs.MemoryRuns
import TypedIR.Proofs.Outcome
import TypedIR.Proofs.SafeRuns
import TypedIR.Proofs.Soundness
import TypedIR.Proofs.TypeGrowth
import TypedIR.Proofs.Typing
import TypedIR.Rep
import TypedIR.Report
import TypedIR.Report.Build
import TypedIR.Report.Comparable
import TypedIR.Report.Engine
import TypedIR.Report.Image
import TypedIR.Report.Session
import TypedIR.Settings
import TypedIR.Store
import TypedIR.Text.Blank
import TypedIR.Text.Cluster
import TypedIR.Text.Directive
import TypedIR.Text.Json
import TypedIR.Text.Numeral
import TypedIR.Text.Printable
import TypedIR.Text.Quoted
import TypedIR.Text.Reading
import TypedIR.Text.Utf8
import TypedIR.Toml.Document
import TypedIR.Toml.Syntax
import TypedIR.Trace.Event
import TypedIR.Trace.Level
import TypedIR.Trace.Output
import TypedIR.Trace.Tracer
import TypedIR.Types.Basic
import TypedIR.Types.Table
import TypedIR.Word
import TypedIR.Proofs.AlikeEmitting
import TypedIR.Proofs.AlikeEngines
import TypedIR.Proofs.AlikeRuns
import TypedIR.Proofs.AbstractHeap
import TypedIR.Proofs.ExactIntegers
import TypedIR.Proofs.HeapRefinement
import TypedIR.Proofs.BuildLock
import TypedIR.Proofs.BuildScripts
import TypedIR.Proofs.BuilderOperations
import TypedIR.Proofs.CodeOperations
import TypedIR.Proofs.FunctionEnds
import TypedIR.Proofs.HashConsing
import TypedIR.Proofs.LayoutSessions
import TypedIR.Proofs.StructLayout
import TypedIR.Proofs.ConstantRoundTrip
import TypedIR.Proofs.StatementBuilds
import TypedIR.Proofs.StructuredRuns
import TypedIR.Proofs.HeldBlocks
import TypedIR.Proofs.CallMemory
import TypedIR.Proofs.SealedFunctions
import TypedIR.Proofs.RunBudgets
import TypedIR.Proofs.ImportedRuns
import TypedIR.Proofs.FailedCreation
import TypedIR.Proofs.AcceptedCalls
import TypedIR.Proofs.BuilderFailures
import TypedIR.Proofs.LogicalConnectives
import TypedIR.Proofs.ElementAccess
import TypedIR.Proofs.CastChains
import TypedIR.Proofs.BuiltLayouts
import TypedIR.Proofs.ExportedFlow
import TypedIR.Proofs.ExportedCalls
import TypedIR.Proofs.StoreHistory
import TypedIR.Proofs.TypeSessions
import TypedIR.Proofs.ManyCalls
import TypedIR.Proofs.BoundsChecks
import TypedIR.Proofs.LibraryNatives
import TypedIR.Proofs.Promotion
import TypedIR.Proofs.StoreListings
import TypedIR.Proofs.TypeParts
import TypedIR.Proofs.StartedFunctions
import TypedIR.Proofs.CompiledPrograms
import TypedIR.Proofs.ProgramCalls
import TypedIR.Proofs.LoweredPrograms
import TypedIR.Proofs.EventRecords
import TypedIR.Proofs.TableColumns
import TypedIR.Proofs.SumDemo
import TypedIR.Proofs.FactDemo
import TypedIR.Proofs.EndPaths
import TypedIR.Proofs.RejectedCalls
import TypedIR.Proofs.CompiledFrames
import TypedIR.Proofs.FormedStreams
import TypedIR.Proofs.StructLocals

import RetroVM.Lib.StepLoop
import RetroVM.Lib.UndoLog
import RetroVM.Lib.HistoryRing
import RetroVM.Lib.Numerals
import RetroVM.Lib.Words
import RetroVM.Assembler.Disassemble
import RetroVM.Assembler.Grammar
import RetroVM.Engine.ComputedGoto
import RetroVM.Engine.NaiveSwitch
import RetroVM.Engine.Frame
import RetroVM.Snapshot.DeltaLog
import RetroVM.Snapshot.Periodic
import RetroVM.Bench.BackN
import RetroVM.Bench.BackSweep
import RetroVM.Trace.Fidelity
import RetroVM.Trace.Divergence
import RetroVM.Engine.Stale
import RetroVM.Debug.SaveRestore
import RetroVM.Checkpoint.Capture
import RetroVM.Checkpoint.Load
import RetroVM.Debug.Breakpoints
import RetroVM.Snapshot.Format
import RetroVM.Trace.Format
import RetroVM.Engine.Arithmetic
import RetroVM.Checkpoint.Verdicts
import RetroVM.Checkpoint.Inspect
import RetroVM.Debug.NumericArg
import RetroVM.Debug.StepCount
import RetroVM.Debug.Where
import RetroVM.Assembler.Meaning
import RetroVM.Debug.Script
import RetroVM.Trace.Tamper
import RetroVM.Trace.Inspect
import RetroVM.Bench.Throughput
import RetroVM.Lib.Footprint
import RetroVM.Cli.Drivers
import RetroVM.Snapshot.Timeline
import RetroVM.Cli.Main
import RetroVM.Cli.Session
import RetroVM.Cli.SnapshotFiles
import RetroVM.Debug.Scrub
import RetroVM.Cli.Toolchain

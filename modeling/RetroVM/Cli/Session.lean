import RetroVM.Bench.BackN
import RetroVM.Bench.BackSweep
import RetroVM.Bench.Throughput
import RetroVM.Cli.Drivers
import RetroVM.Cli.Main
import RetroVM.Checkpoint.Inspect
import RetroVM.Debug.Script
import RetroVM.Lib.Footprint
import RetroVM.Trace.Inspect
import RetroVM.Trace.Tamper

/-!
# Commands on files (`main.cpp`)

What the commands do to the files around them, one after the other from a shell. `cmd_record` adds
`.trace` to the path of its program, `cmd_snapshot` a counter; `cmd_save`, `cmd_assemble` and a
`save` in a debugger script write to the path they are given; the others write nothing. What is read
is at the paths on the command line.

Debugger sessions without a script are left out, as are sessions that overwrite the script or the
trace they are reading from.

Results:
* `writes_subset_mayWrite`: a command writes to the paths it is given, or to those named after them.
* **`sessions_write_only_named`**, **`sessions_interleave`**: what commands can do to each other.
* **`recorded_then_replayed`**, **`saved_then_inspected`**: files outlast what happens around them.
-/

namespace RetroVM

open Footprint

/-! ## Reports -/

/-- What a command came to. -/
inductive JobReport where
  /-- `read_file` could not open the program. -/
  | cannotOpen
  /-- An exception left `main`: a trace could not be read, or not be written. -/
  | uncaught
  /-- The demo, and the exit code it leaves `main` with. -/
  | demo (out : RunOutcome × Option Nat)
  | benchmark (out : Bench.Outcome)
  /-- The runs of either dispatch mode. -/
  | dispatchCmp (goto switch : Bench.Outcome)
  | backn (out : Bench.BackN.Outcome)
  | backSweep (cells : List (List Bench.BackSweep.Cell))
  | ran (out : RunOutcome)
  | assembled (out : Except AsmError (List UInt32 × List UInt8))
  | recorded (out : RecordOutcome)
  | replayed (out : ReplayOutcome)
  | snapshots (out : SnapshotOutcome)
  | saved (out : SaveOutcome)
  /-- `none` is a `.state` file that could not be opened. -/
  | restored (out : Option RestoreOutcome)
  /-- The debugger, with what it printed. -/
  | debugged (messages : List Message)
  /-- The debugger came to no prompt. -/
  | debugRefused
  /-- `none` is a trace that could not be opened. -/
  | inspectedTrace (out : Option TraceInspection)
  | inspected (out : Option (List (Field × List Char)))
  | inspectedDiff (out : Option (List DiffRow))

/-- The exit code of `cmd_inspect_trace`. -/
def TraceInspection.exitCode : TraceInspection → Nat
  | .cannotOpen _ | .outOfRange .. => 1
  | .frame _ | .report _ => 0

/-- The exit code of `cmd_benchmark`; an uncaught exception has none. -/
def benchmarkExitCode : Bench.Outcome → Option Nat
  | .measured .. => some 0
  | .tooLarge | .sanityFailed _ | .drift _ => some 1
  | .uncaught _ => none

/-- The exit code of a command; an uncaught exception has none, and that of `cmd_benchmark_backn` is
a matter of time. -/
def JobReport.exitCode : JobReport → Option Nat
  | .cannotOpen => some 1
  | .uncaught => none
  | .demo out => out.2
  | .benchmark out => benchmarkExitCode out
  | .dispatchCmp goto switch =>
    (benchmarkExitCode goto).bind fun a => (benchmarkExitCode switch).map fun b => max a b
  | .backn .refused => some 1
  | .backn .timed => none
  | .backSweep _ => some 0
  | .ran out => out.exitCode
  | .assembled out => some (asmExitCode out)
  | .recorded out => out.exitCode
  | .replayed out => some out.exitCode
  | .snapshots out => out.exitCode
  | .saved out => some out.exitCode
  | .restored out => some (out.elim 1 RestoreOutcome.exitCode)
  | .debugged _ => some 0
  | .debugRefused => some 1
  | .inspectedTrace out => some (out.elim 1 TraceInspection.exitCode)
  | .inspected out => some (if out.isSome then 0 else 1)
  | .inspectedDiff out => some (if out.isSome then 0 else 1)

/-! ## Files -/

/-- The bytes of a file as the `char`s of a text. -/
def asText (bytes : List UInt8) : List Char := bytes.map fun b => Char.ofNat b.toNat

/-- One file written. -/
def wrote (path : List Char) (bytes : List UInt8) : Files :=
  Function.update nothing path (some bytes)

/-- Where `cmd_record` flushes its trace. -/
def tracePathOf (bin : List Char) : List Char := bin ++ ".trace".toList

/-- `printf("%04u")`. -/
def printf04U (n : Nat) : List Char :=
  List.replicate (4 - (printfU n).length) '0' ++ printfU n

/-- Where `cmd_snapshot` writes the file with an index, a `uint32_t`; `path` has room for 511
characters. -/
def snapshotPath (bin : List Char) (idx : Nat) : List Char :=
  (bin ++ ".snap.".toList ++ printf04U (idx % 2 ^ 32)).take 511

/-- The files `cmd_snapshot` writes, in turn; those that cannot be opened are skipped. -/
def snapshotsWritten (writable : List Char → Bool) (bin : List Char) :
    Nat → Files → List (List UInt8) → Files
  | _, written, [] => written
  | idx, written, file :: rest =>
    let path := snapshotPath bin idx
    snapshotsWritten writable bin (idx + 1)
      (if writable path then Function.update written path (some file) else written) rest

/-! ## Commands -/

/-- A process: the command, what its standard input and its generator hold, the paths it can
write to, and the fuel its runs get. -/
structure Job where
  inv      : Invocation
  stdin    : Nat → UInt32
  entropy  : Nat → UInt32
  writable : List Char → Bool
  fuel     : Nat

/-- `read_file`, and what is done with the program. -/
def withProgram (file : Option (List UInt8)) (k : List UInt8 → Option (JobReport × Files)) :
    Option (JobReport × Files) :=
  match file with
  | none => some (.cannotOpen, nothing)
  | some bytes => k bytes

/-- The constructor of `TraceReader`, and what is done with the trace. -/
def withTrace (file : Option (List UInt8)) (k : Trace → Option (JobReport × Files)) :
    Option (JobReport × Files) :=
  match file with
  | none => some (.uncaught, nothing)
  | some file =>
    match TraceReader.ofFile file with
    | .error _ => some (.uncaught, nothing)
    | .ok reader => k reader.frames

/-- The paths a debugger session has written to. -/
def savedPaths (messages : List Message) : List (List Char) :=
  messages.filterMap fun
    | .saved path _ _ => some path
    | _ => none

/-- What a debugger session came to, unless it wrote to a file it was reading from. -/
def debugReport {η : Type} (reading : List (List Char)) :
    DebugOutcome η → Option (JobReport × Files)
  | .tooLarge | .cannotOpenScript => some (.debugRefused, nothing)
  | .ended _ s =>
    if ∀ path ∈ savedPaths s.messages, path ∉ reading then some (.debugged s.messages, s.files)
    else none

section Effects

variable (mt19937 : UInt32 → Nat → UInt32)

/-- What a command comes to among `files`, and what it writes. -/
def Job.effect (job : Job) (files : Files) : Option (JobReport × Files) :=
  match job.inv with
  | .demo =>
    (runBuiltinDemo job.stdin job.entropy job.fuel).map fun out => (.demo out, nothing)
  | .benchmark n =>
    (Bench.cmdBenchmark job.stdin job.entropy job.fuel n).map fun out => (.benchmark out, nothing)
  | .benchBack n depth =>
    (Bench.BackN.cmdBenchmarkBackn job.stdin job.entropy job.fuel n depth).map fun out =>
      (.backn out, nothing)
  | .benchDispatchCmp n =>
    (Bench.runMode job.stdin job.entropy job.fuel n .computedGoto).bind fun goto =>
      (Bench.runMode job.stdin job.entropy job.fuel n .naiveSwitch).map fun switch =>
        (.dispatchCmp goto switch, nothing)
  | .benchBackSweep n =>
    (Bench.BackSweep.cmdBenchmarkBackSweep job.stdin job.entropy job.fuel n).map fun cells =>
      (.backSweep cells, nothing)
  | .run bin => withProgram (files bin) fun bytes =>
    (cmdRun bytes job.stdin job.entropy job.fuel).map fun out => (.ran out, nothing)
  | .assemble src dst =>
    let out := assembleFile ((files src).map asText) (job.writable dst)
    some (.assembled out, match out with
      | .ok (_, image) => wrote dst image
      | .error _ => nothing)
  | .record bin seed => withProgram (files bin) fun bytes =>
    (cmdRecord bytes job.stdin (mt19937 seed) job.fuel).map fun out =>
      match out.frames with
      | some frames =>
        if job.writable (tracePathOf bin) then
          (.recorded out, wrote (tracePathOf bin) (traceFile frames))
        else (.uncaught, nothing)
      | none => (.recorded out, nothing)
  | .replay bin trace => withProgram (files bin) fun bytes => withTrace (files trace) fun reader =>
    (cmdReplay bytes reader job.fuel).map fun out => (.replayed out, nothing)
  | .snapshot bin interval => withProgram (files bin) fun bytes =>
    (cmdSnapshot bytes interval job.stdin job.entropy job.fuel).map fun out =>
      (.snapshots out, match out with
        | .halted _ _ snaps => snapshotsWritten job.writable bin 0 nothing snaps
        | _ => nothing)
  | .save bin trace state atFrame =>
    withProgram (files bin) fun bytes => withTrace (files trace) fun reader =>
      (cmdSave bytes reader atFrame (job.writable state) job.fuel).map fun out =>
        (.saved out, match out.written with
          | some file => wrote state file
          | none => nothing)
  | .restore bin trace state =>
    withProgram (files bin) fun bytes => withTrace (files trace) fun reader =>
      match files state with
      | none => some (.restored none, nothing)
      | some file => (cmdRestore bytes reader file job.fuel).map fun out =>
        (.restored (some out), nothing)
  | .debug bin traceArg batchArg =>
    if batchArg = [] then none
    else withProgram (files bin) fun bytes =>
      if (VM.boot bytes).isNone then some (.debugRefused, nothing)
      else if traceArg = [] then
        (cmdDebug (freshMode job.stdin job.entropy) bytes (0, 0) ((files batchArg).map asText)
          job.writable nothing job.fuel).bind (debugReport [batchArg])
      else withTrace (files traceArg) fun reader =>
        (cmdDebug (replayMode reader) bytes 0 ((files batchArg).map asText)
          job.writable nothing job.fuel).bind (debugReport [batchArg, traceArg])
  | .inspectTrace trace frameIdx =>
    some (.inspectedTrace ((files trace).map fun file => cmdInspectTrace file frameIdx), nothing)
  | .inspect state => some (.inspected (cmdInspect (files state)), nothing)
  | .inspectDiff a b => some (.inspectedDiff (cmdInspectDiff (files a) (files b)), nothing)

/-- The paths a command reads from. -/
def Invocation.reads : Invocation → Set (List Char)
  | .demo | .benchmark _ | .benchBack _ _ | .benchDispatchCmp _ | .benchBackSweep _ => ∅
  | .run bin => {bin}
  | .assemble src _ => {src}
  | .record bin _ => {bin}
  | .replay bin trace => {bin, trace}
  | .snapshot bin _ => {bin}
  | .save bin trace _ _ => {bin, trace}
  | .restore bin trace state => {bin, trace, state}
  | .debug bin traceArg batchArg =>
    {bin} ∪ {path | path ≠ [] ∧ (path = traceArg ∨ path = batchArg)}
  | .inspectTrace trace _ => {trace}
  | .inspect state => {state}
  | .inspectDiff a b => {a, b}

/-- The paths a command may write to, where its script is among `files`. -/
def Invocation.mayWrite (files : Files) : Invocation → Set (List Char)
  | .assemble _ dst => {dst}
  | .record bin _ => {tracePathOf bin}
  | .snapshot bin _ => Set.range (snapshotPath bin)
  | .save _ _ state _ => {state}
  | .debug _ _ batchArg => {path | ∃ script, files batchArg = some script ∧
      ∃ line ∈ getlines (asText script), parseLine line = .save path}
  | _ => ∅

/-- **A command looks at no other path.** -/
theorem effect_confined (job : Job) (s t : Files) (h : ∀ path ∈ job.inv.reads, s path = t path) :
    job.effect mt19937 s = job.effect mt19937 t := by
  obtain ⟨inv, stdin, entropy, writable, fuel⟩ := job
  cases inv with
  | demo | benchmark | benchBack | benchDispatchCmp | benchBackSweep => rfl
  | run bin | record bin | snapshot bin =>
    have hbin : s bin = t bin := h bin rfl
    simp only [Job.effect, hbin]
  | assemble src dst =>
    have hsrc : s src = t src := h src rfl
    simp only [Job.effect, hsrc]
  | replay bin trace | save bin trace =>
    have hbin : s bin = t bin := h bin (.inl rfl)
    have htrace : s trace = t trace := h trace (.inr rfl)
    simp only [Job.effect, hbin, htrace]
  | restore bin trace state =>
    have hbin : s bin = t bin := h bin (.inl rfl)
    have htrace : s trace = t trace := h trace (.inr (.inl rfl))
    have hstate : s state = t state := h state (.inr (.inr rfl))
    simp only [Job.effect, hbin, htrace, hstate]
  | debug bin traceArg batchArg =>
    have hbin : s bin = t bin := h bin (.inl rfl)
    by_cases hbatchArg : batchArg = []
    · simp only [Job.effect, if_pos hbatchArg]
    have hbatch : s batchArg = t batchArg := h batchArg (.inr ⟨hbatchArg, .inr rfl⟩)
    by_cases htraceArg : traceArg = []
    · simp only [Job.effect, if_neg hbatchArg, if_pos htraceArg, hbin, hbatch]
    · have htrace : s traceArg = t traceArg := h traceArg (.inr ⟨htraceArg, .inl rfl⟩)
      simp only [Job.effect, hbin, htrace, hbatch]
  | inspectTrace trace frameIdx =>
    have htrace : s trace = t trace := h trace rfl
    simp only [Job.effect, htrace]
  | inspect state =>
    have hstate : s state = t state := h state rfl
    simp only [Job.effect, hstate]
  | inspectDiff a b =>
    have ha : s a = t a := h a (.inl rfl)
    have hb : s b = t b := h b (.inr rfl)
    simp only [Job.effect, ha, hb]

/-- A command as an action on the files. -/
def Job.action (job : Job) : Action (List Char) (List UInt8) JobReport where
  reads := job.inv.reads
  effect := job.effect mt19937
  confined := effect_confined mt19937 job

end Effects

/-! ## What is written -/

section Writes

variable {r : JobReport} {w : Files} {path : List Char}

/-- What was written is there. -/
theorem overlay_wrote (path : List Char) (bytes : List UInt8) (files : Files) :
    overlay (wrote path bytes) files path = some bytes := by
  unfold overlay wrote
  rw [Function.update_self]
  rfl

theorem wrote_isSome {dst : List Char} {bytes : List UInt8} (h : (wrote dst bytes path).isSome) :
    path = dst := by
  by_contra hne
  unfold wrote at h
  rw [Function.update_of_ne hne] at h
  cases h

theorem withProgram_eq_some {file : Option (List UInt8)}
    {k : List UInt8 → Option (JobReport × Files)} (h : withProgram file k = some (r, w)) :
    w = nothing ∨ ∃ bytes, file = some bytes ∧ k bytes = some (r, w) := by
  unfold withProgram at h
  cases file with
  | none => exact .inl (Prod.mk.inj (Option.some.inj h)).2.symm
  | some bytes => exact .inr ⟨bytes, rfl, h⟩

theorem withTrace_eq_some {file : Option (List UInt8)}
    {k : Trace → Option (JobReport × Files)} (h : withTrace file k = some (r, w)) :
    w = nothing ∨ ∃ reader, k reader = some (r, w) := by
  unfold withTrace at h
  cases file with
  | none => exact .inl (Prod.mk.inj (Option.some.inj h)).2.symm
  | some file =>
    dsimp only at h
    split at h
    · exact .inl (Prod.mk.inj (Option.some.inj h)).2.symm
    · exact .inr ⟨_, h⟩

theorem snapshotsWritten_isSome {writable : List Char → Bool} {bin : List Char} {idx : Nat}
    {written : Files} {snaps : List (List UInt8)}
    (h : (snapshotsWritten writable bin idx written snaps path).isSome) :
    (written path).isSome ∨ ∃ i, snapshotPath bin i = path := by
  induction snaps generalizing idx written with
  | nil => exact .inl h
  | cons file rest ih =>
    rcases ih h with hw | hrange
    · by_cases hpath : path = snapshotPath bin idx
      · exact .inr ⟨idx, hpath.symm⟩
      · refine .inl ?_
        split at hw
        · rwa [Function.update_of_ne hpath] at hw
        · exact hw
    · exact .inr hrange

variable {η : Type} {io : ReplMode η} {writable : List Char → Bool} {fuel : Nat}

theorem debugReport_isSome {reading : List (List Char)} {bytes : List UInt8} {e : η}
    {script : Option (List Char)}
    (h : (cmdDebug io bytes e script writable nothing fuel).bind (debugReport reading) =
      some (r, w)) (hw : (w path).isSome) :
    ∃ text, script = some text ∧ ∃ line ∈ getlines text, parseLine line = .save path := by
  obtain ⟨out, hout, hreport⟩ := Option.bind_eq_some_iff.mp h
  cases out with
  | tooLarge | cannotOpenScript =>
    obtain ⟨-, rfl⟩ := Prod.mk.inj (Option.some.inj hreport)
    cases hw
  | ended status' s =>
    unfold debugReport at hreport
    dsimp only at hreport
    split at hreport
    · obtain ⟨-, rfl⟩ := Prod.mk.inj (Option.some.inj hreport)
      cases script with
      | none =>
        unfold cmdDebug at hout
        split at hout <;> cases hout
      | some text =>
        obtain ⟨m, hm, hrun⟩ := cmdDebug_ended hout
        rcases cmdDebugRun_files [] ⟨_, _, .start hm⟩ (fun _ => .inl rfl) hrun path with
          hsame | ⟨line, hline, hsave, -⟩
        · rw [hsame] at hw
          cases hw
        · exact ⟨text, rfl, line, hline, hsave⟩
    · cases hreport

/-- **A command writes where it may.** -/
theorem writes_subset_mayWrite (mt19937 : UInt32 → Nat → UInt32) (job : Job) (files : Files) :
    (job.action mt19937).writes files ⊆ job.inv.mayWrite files := by
  obtain ⟨inv, stdin, entropy, writable, fuel⟩ := job
  rintro path ⟨r, w, heffect, hw⟩
  have hnothing : w ≠ nothing := by
    rintro rfl
    cases hw
  change Job.effect mt19937 ⟨inv, stdin, entropy, writable, fuel⟩ files = some (r, w) at heffect
  cases inv with
  | demo | benchmark | benchBack | benchBackSweep =>
    obtain ⟨out, -, hout⟩ := Option.map_eq_some_iff.mp heffect
    exact absurd (Prod.mk.inj hout).2.symm hnothing
  | benchDispatchCmp =>
    obtain ⟨goto, -, hgoto⟩ := Option.bind_eq_some_iff.mp heffect
    obtain ⟨switch, -, hout⟩ := Option.map_eq_some_iff.mp hgoto
    exact absurd (Prod.mk.inj hout).2.symm hnothing
  | run bin =>
    obtain ⟨bytes, -, hrun⟩ := (withProgram_eq_some heffect).resolve_left hnothing
    obtain ⟨out, -, hout⟩ := Option.map_eq_some_iff.mp hrun
    exact absurd (Prod.mk.inj hout).2.symm hnothing
  | assemble src dst =>
    obtain ⟨-, hout⟩ := Prod.mk.inj (Option.some.inj heffect)
    split at hout
    · exact wrote_isSome (hout ▸ hw)
    · exact absurd hout.symm hnothing
  | record bin seed =>
    obtain ⟨bytes, -, hrun⟩ := (withProgram_eq_some heffect).resolve_left hnothing
    obtain ⟨out, -, hout⟩ := Option.map_eq_some_iff.mp hrun
    split at hout
    · split at hout
      · exact wrote_isSome ((Prod.mk.inj hout).2 ▸ hw)
      · exact absurd (Prod.mk.inj hout).2.symm hnothing
    · exact absurd (Prod.mk.inj hout).2.symm hnothing
  | replay bin trace =>
    obtain ⟨bytes, -, hrun⟩ := (withProgram_eq_some heffect).resolve_left hnothing
    obtain ⟨reader, hrun⟩ := (withTrace_eq_some hrun).resolve_left hnothing
    obtain ⟨out, -, hout⟩ := Option.map_eq_some_iff.mp hrun
    exact absurd (Prod.mk.inj hout).2.symm hnothing
  | snapshot bin interval =>
    obtain ⟨bytes, -, hrun⟩ := (withProgram_eq_some heffect).resolve_left hnothing
    obtain ⟨out, -, hout⟩ := Option.map_eq_some_iff.mp hrun
    have hwritten := (Prod.mk.inj hout).2
    split at hwritten
    · rw [← hwritten] at hw
      rcases snapshotsWritten_isSome hw with hnone | hrange
      · cases hnone
      · exact hrange
    · exact absurd hwritten.symm hnothing
  | save bin trace state atFrame =>
    obtain ⟨bytes, -, hrun⟩ := (withProgram_eq_some heffect).resolve_left hnothing
    obtain ⟨reader, hrun⟩ := (withTrace_eq_some hrun).resolve_left hnothing
    obtain ⟨out, -, hout⟩ := Option.map_eq_some_iff.mp hrun
    have hwritten := (Prod.mk.inj hout).2
    split at hwritten
    · exact wrote_isSome (hwritten ▸ hw)
    · exact absurd hwritten.symm hnothing
  | restore bin trace state =>
    obtain ⟨bytes, -, hrun⟩ := (withProgram_eq_some heffect).resolve_left hnothing
    obtain ⟨reader, hrun⟩ := (withTrace_eq_some hrun).resolve_left hnothing
    split at hrun
    · exact absurd (Prod.mk.inj (Option.some.inj hrun)).2.symm hnothing
    · obtain ⟨out, -, hout⟩ := Option.map_eq_some_iff.mp hrun
      exact absurd (Prod.mk.inj hout).2.symm hnothing
  | debug bin traceArg batchArg =>
    have hscript : ∃ text, (files batchArg).map asText = some text ∧
        ∃ line ∈ getlines text, parseLine line = .save path := by
      unfold Job.effect at heffect
      dsimp only at heffect
      split at heffect
      · cases heffect
      obtain ⟨bytes, -, hrun⟩ := (withProgram_eq_some heffect).resolve_left hnothing
      split at hrun
      · exact absurd (Prod.mk.inj (Option.some.inj hrun)).2.symm hnothing
      split at hrun
      · exact debugReport_isSome hrun hw
      · obtain ⟨reader, hrun⟩ := (withTrace_eq_some hrun).resolve_left hnothing
        exact debugReport_isSome hrun hw
    obtain ⟨text, htext, hsave⟩ := hscript
    obtain ⟨script, hfile, rfl⟩ := Option.map_eq_some_iff.mp htext
    exact ⟨script, hfile, hsave⟩
  | inspectTrace | inspect | inspectDiff =>
    exact absurd (Prod.mk.inj (Option.some.inj heffect)).2.symm hnothing

end Writes

/-! ## Sessions -/

section Sessions

variable (mt19937 : UInt32 → Nat → UInt32)

/-- The commands of a log run one after the other, and nothing else is known of them. -/
abbrev ShellRuns (log : List (Job × JobReport)) (files files' : Files) : Prop :=
  Runs (Job.action mt19937) (fun _ _ => True) log files files'

/-- The command names no path outside of `P`. -/
def KeepsTo (P : Set (List Char)) (job : Job) (files : Files) : Prop :=
  job.inv.reads ⊆ P ∧ job.inv.mayWrite files ⊆ P

/-- **Commands change what they name, and lose nothing.** Whatever commands are run, a file that was
there is there afterwards; and where a path holds something else than before, there was a command
that may write to it, at the time it ran. -/
theorem sessions_write_only_named (log : List (Job × JobReport)) (files files' : Files)
    (h : ShellRuns mt19937 log files files') (path : List Char) :
    ((files path).isSome → (files' path).isSome) ∧
      (files' path ≠ files path → ∃ before job report after u,
        log = before ++ (job, report) :: after ∧ ShellRuns mt19937 before files u ∧
          path ∈ job.inv.mayWrite u) := by
  refine ⟨h.kept, fun hne => ?_⟩
  induction h with
  | nil => exact absurd rfl hne
  | @cons job report log files u files' _ hrun hrest ih =>
    by_cases hpath : files' path = u path
    · -- the change is the one of this command
      refine ⟨[], job, report, log, files, rfl, .nil files, ?_⟩
      by_contra hno
      exact hne (hpath.trans (Action.run_frame hrun fun hw =>
        hno (writes_subset_mayWrite mt19937 job files hw)))
    · obtain ⟨before, job', report', after, v, rfl, hbefore, hmay⟩ := ih hpath
      exact ⟨(job, report) :: before, job', report', after, v, rfl,
        .cons trivial hrun hbefore, hmay⟩

/-- `asm a b`, with `HALT` in `a`, changes `b`, which it may. -/
theorem sessions_write_only_named_asm :
    let job : Job := ⟨.assemble ['a'] ['b'], fun _ => 0, fun _ => 0, fun _ => true, 0⟩
    let files : Files := wrote ['a'] [0x48, 0x41, 0x4C, 0x54]
    ∃ report files', ShellRuns (fun _ _ => 0) [(job, report)] files files' ∧
      (files' ['a']).isSome ∧ files' ['b'] = some [0, 0, 0, 0] ∧
      ∃ before job' report' after u, [(job, report)] = before ++ (job', report') :: after ∧
        ShellRuns (fun _ _ => 0) before files u ∧ ['b'] ∈ job'.inv.mayWrite u := by
  intro job files
  have hruns : ShellRuns (fun _ _ => 0) [(job, _)] files _ := .cons trivial rfl (.nil _)
  have hwritten : overlay (match assembleFile ((files ['a']).map asText) true with
      | .ok (_, image) => wrote ['b'] image
      | .error _ => nothing) files ['b'] = some [0, 0, 0, 0] := by
    decide +kernel
  obtain ⟨hkept, -⟩ := sessions_write_only_named _ _ _ _ hruns ['a']
  obtain ⟨-, hnamed⟩ := sessions_write_only_named _ _ _ _ hruns ['b']
  refine ⟨_, _, hruns, hkept rfl, hwritten, hnamed fun hsame => ?_⟩
  rw [show files ['b'] = none from rfl] at hsame
  exact absurd (hwritten.symm.trans hsame) (by simp)

/-- `inspect` prints what its file holds, and leaves the files as they are. -/
theorem inspect_run {job : Job} {state : List Char} (hjob : job.inv = .inspect state)
    (files : Files) :
    (job.action mt19937).run files = some (.inspected (cmdInspect (files state)), files) := by
  refine Action.run_eq_some_iff.mpr ⟨nothing, ?_, overlay_nothing files⟩
  change job.effect mt19937 files = _
  unfold Job.effect
  rw [hjob]

/-- **Commands that name different files do not see each other.** Take two sequences of commands
that, run by themselves on the same files, keep to disjoint sets of paths. In whatever order the two
are interleaved, every command comes to the same report, and the files on either side are those the
sequence leaves when run alone; no other file changes. -/
theorem sessions_interleave (P P' : Set (List Char)) (hdisj : Disjoint P P')
    (log log' logs : List (Job × JobReport)) (files files' files'' : Files)
    (h : Runs (Job.action mt19937) (KeepsTo P) log files files')
    (h' : Runs (Job.action mt19937) (KeepsTo P') log' files files'')
    (hlogs : Interleaving log log' logs) :
    ∃ u, ShellRuns mt19937 logs files u ∧ (∀ path ∈ P, u path = files' path) ∧
      (∀ path ∈ P', u path = files'' path) ∧
      ∀ path, path ∉ P → path ∉ P' → u path = files path := by
  have hwithin : ∀ (Q : Set (List Char)) j f, KeepsTo Q j f →
      Within (Job.action mt19937) Q j f := fun Q j f hj =>
    ⟨hj.1, (writes_subset_mayWrite mt19937 j f).trans hj.2⟩
  obtain ⟨u, hruns, hP, hP', hother⟩ := Runs.interleave hdisj hlogs (h.mono (hwithin P))
    (h'.mono (hwithin P')) (fun _ _ => rfl) fun _ _ => rfl
  exact ⟨u, hruns, fun p hp => (hP p hp).symm, fun p hp => (hP' p hp).symm, hother⟩

/-- `asm a b` of `HALT` and `inspect c` of a checkpoint, the second first: the checkpoint is
printed, and the image is in `b`. -/
theorem sessions_interleave_asm_inspect :
    let asm : Job := ⟨.assemble ['a'] ['b'], fun _ => 0, fun _ => 0, fun _ => true, 0⟩
    let inspect : Job := ⟨.inspect ['c'], fun _ => 0, fun _ => 0, fun _ => true, 0⟩
    let files : Files := overlay (wrote ['a'] [0x48, 0x41, 0x4C, 0x54])
      (wrote ['c'] (checkpointSave ⟨3, 6, 0, Vector.replicate 8 0, 8, 0xFFFFC⟩))
    ∃ report rows u, ShellRuns (fun _ _ => 0)
        [(inspect, .inspected (some rows)), (asm, report)] files u ∧
      (.frameIndex, ['3']) ∈ rows ∧ u ['b'] = some [0, 0, 0, 0] := by
  intro asm inspect files
  have hasm : Runs (Job.action fun _ _ => 0) (KeepsTo {['a'], ['b']}) [(asm, _)] files _ :=
    .cons ⟨fun _ h => .inl h, fun _ h => .inr h⟩ rfl (.nil _)
  have hinspect : Runs (Job.action fun _ _ => 0) (KeepsTo {['c']})
      [(inspect, .inspected (cmdInspect (files ['c'])))] files files :=
    .cons ⟨fun _ h => h, fun _ h => nomatch h⟩ (inspect_run _ rfl files) (.nil files)
  have hwritten : overlay (match assembleFile ((files ['a']).map asText) true with
      | .ok (_, image) => wrote ['b'] image
      | .error _ => nothing) files ['b'] = some [0, 0, 0, 0] := by
    decide +kernel
  have hshown :
      ((cmdInspect (files ['c'])).any fun rows => (.frameIndex, ['3']) ∈ rows) = true := by
    decide +kernel
  obtain ⟨rows, hrows, hmem⟩ := (Option.any_eq_true _ _).mp hshown
  have hdisj : Disjoint ({['a'], ['b']} : Set (List Char)) {['c']} := by
    simp
  obtain ⟨u, hruns, hP, -⟩ := sessions_interleave _ _ _ hdisj _ _ _ _ _ _ hasm hinspect
    (.right (.left .nil))
  rw [hrows] at hruns
  exact ⟨_, rows, u, hruns, of_decide_eq_true hmem, (hP ['b'] (.inr rfl)).trans hwritten⟩

/-- The command writes to none of the paths in `P`. -/
def Spares (P : Set (List Char)) (job : Job) (files : Files) : Prop :=
  Disjoint P (job.inv.mayWrite files)

theorem spares_frame {P : Set (List Char)} {log : List (Job × JobReport)} {files files' : Files}
    (h : Runs (Job.action mt19937) (Spares P) log files files') {path : List Char} (hp : path ∈ P) :
    files' path = files path :=
  h.frame fun job f hspares hw =>
    Set.disjoint_left.mp hspares hp (writes_subset_mayWrite mt19937 job f hw)

/-- What a recording leaves. -/
theorem record_leaves {job : Job} {bin : List Char} {seed : UInt32}
    (hjob : job.inv = .record bin seed) {r : HaltReason} {vm : VM} {frames : Trace}
    {files files' : Files}
    (h : (job.action mt19937).run files = some (.recorded (.halted r vm frames), files')) :
    ∃ bytes, files bin = some bytes ∧
      cmdRecord bytes job.stdin (mt19937 seed) job.fuel = some (.halted r vm frames) ∧
      files' bin = some bytes ∧ files' (tracePathOf bin) = some (traceFile frames) := by
  obtain ⟨w, hw, rfl⟩ := Action.run_eq_some_iff.mp h
  change job.effect mt19937 files = _ at hw
  unfold Job.effect at hw
  rw [hjob] at hw
  dsimp only at hw
  unfold withProgram at hw
  cases hbin : files bin with
  | none =>
    rw [hbin] at hw
    cases hw
  | some bytes =>
    rw [hbin] at hw
    obtain ⟨out, hout, hreport⟩ := Option.map_eq_some_iff.mp hw
    have hne : bin ≠ tracePathOf bin := by
      intro he
      have hlen := congrArg List.length he
      simp [tracePathOf] at hlen
    cases out with
    | halted r' vm' frames' =>
      dsimp only [RecordOutcome.frames] at hreport
      split at hreport
      · obtain ⟨hrec, rfl⟩ := Prod.mk.inj hreport
        obtain ⟨rfl, rfl, rfl⟩ := RecordOutcome.halted.inj (JobReport.recorded.inj hrec)
        refine ⟨bytes, rfl, hout, ?_, ?_⟩
        · refine (overlay_of_none ?_).trans hbin
          exact Function.update_of_ne hne _ _
        · exact overlay_wrote _ _ _
      · cases (Prod.mk.inj hreport).1
    | tooLarge => cases (Prod.mk.inj hreport).1
    | uncaught e => cases (Prod.mk.inj hreport).1

/-- **A recording is replayed, whatever happened in between.** Once `record` has halted and flushed
its trace, any commands may follow, as long as none of them writes to the program or to the trace:
`replay` of the two then verifies, for the same reason and in the same visible state. -/
theorem recorded_then_replayed (job job' : Job) (bin : List Char) (seed : UInt32)
    (hjob : job.inv = .record bin seed) (hjob' : job'.inv = .replay bin (tracePathOf bin))
    (hfuel : job.fuel ≤ job'.fuel) (r : HaltReason) (vm : VM) (frames : Trace)
    (files files' files'' : Files)
    (hrec : (job.action mt19937).run files = some (.recorded (.halted r vm frames), files'))
    (log : List (Job × JobReport))
    (hlog : Runs (Job.action mt19937) (Spares {bin, tracePathOf bin}) log files' files'') :
    ∃ vm', (job'.action mt19937).run files'' = some (.replayed (.verified r vm'), files'') ∧
      SameVisible vm vm' := by
  obtain ⟨bytes, -, hout, hbin, htrace⟩ := record_leaves mt19937 hjob hrec
  rw [← spares_frame mt19937 hlog (.inl rfl)] at hbin
  rw [← spares_frame mt19937 hlog (.inr rfl)] at htrace
  obtain ⟨vm', hsame, hrun⟩ := replay_of_record hout hfuel
  obtain ⟨reader, hreader, -⟩ := ofFile_flushToFile ⟨frames⟩
  refine ⟨vm', Action.run_eq_some_iff.mpr ⟨nothing, ?_, overlay_nothing files''⟩, hsame⟩
  change job'.effect mt19937 files'' = _
  unfold Job.effect
  rw [hjob']
  dsimp only
  rw [hbin, htrace]
  unfold withProgram withTrace
  dsimp only
  rw [show TraceReader.ofFile (traceFile frames) = .ok reader from hreader]
  dsimp only
  rw [frames_of_flushToFile hreader, hrun]
  rfl

/-- The frames of a recording, if that is what is reported. -/
def JobReport.frames : JobReport → Option Trace
  | .recorded out => out.frames
  | _ => none

theorem JobReport.of_frames {report : JobReport} {frames : Trace}
    (h : report.frames = some frames) : ∃ r vm, report = .recorded (.halted r vm frames) := by
  cases report with
  | recorded out =>
    cases out with
    | halted r vm frames' =>
      obtain rfl := Option.some.inj h
      exact ⟨r, vm, rfl⟩
    | tooLarge | uncaught => cases h
  | _ => cases h

/-- `record p --seed=1` of `IN R0; HALT`, `inspect s`, `replay p p.trace`. -/
theorem recorded_then_replayed_in :
    let replay : Job :=
      ⟨.replay ['p'] (tracePathOf ['p']), fun _ => 0, fun _ => 0, fun _ => true, 2⟩
    ∃ r files vm, (replay.action fun _ _ => 0).run files =
      some (.replayed (.verified r vm), files) := by
  intro replay
  let record : Job := ⟨.record ['p'] 1, fun _ => 5, fun _ => 0, fun _ => true, 2⟩
  let inspect : Job := ⟨.inspect ['s'], fun _ => 0, fun _ => 0, fun _ => true, 0⟩
  have hframes : ((record.action fun _ _ => 0).run
      (wrote ['p'] (imageOf [encode 0x09 0 0 0, 0]))).bind (fun e => e.1.frames) =
        some [⟨1, 0x09, 5⟩] := by
    decide +kernel
  obtain ⟨⟨report, files'⟩, hrun, hreport⟩ := Option.bind_eq_some_iff.mp hframes
  obtain ⟨r, vm, rfl⟩ := JobReport.of_frames hreport
  have hlog : Runs (Job.action fun _ _ => 0) (Spares {['p'], tracePathOf ['p']})
      [(inspect, _)] files' files' :=
    .cons (Set.disjoint_empty _) (inspect_run _ rfl files') (.nil files')
  obtain ⟨vm', hreplay, -⟩ := recorded_then_replayed (fun _ _ => 0) record replay ['p'] 1 rfl rfl
    (Nat.le_refl 2) r vm _ _ _ _ hrun _ hlog
  exact ⟨r, files', vm', hreplay⟩

/-- What a save leaves. -/
theorem save_leaves {job : Job} {bin trace state : List Char} {atFrame : Nat}
    (hjob : job.inv = .save bin trace state atFrame) {file : List UInt8} {vm : VM}
    {files files' : Files}
    (h : (job.action mt19937).run files = some (.saved (.saved (some file) vm), files')) :
    file = checkpointSave (saveCheckpoint atFrame vm.state) ∧ Sane vm.state ∧
      files' state = some file := by
  obtain ⟨w, hw, rfl⟩ := Action.run_eq_some_iff.mp h
  change job.effect mt19937 files = _ at hw
  unfold Job.effect at hw
  rw [hjob] at hw
  dsimp only at hw
  unfold withProgram withTrace at hw
  split at hw
  · cases hw
  split at hw
  · cases hw
  split at hw
  · cases hw
  obtain ⟨out, hout, hreport⟩ := Option.map_eq_some_iff.mp hw
  obtain ⟨hsaved, rfl⟩ := Prod.mk.inj hreport
  obtain rfl := JobReport.saved.inj hsaved
  refine ⟨(saved_is_state hout).1, (saved_is_state hout).2, ?_⟩
  exact overlay_wrote _ _ _

/-- **A checkpoint is inspected as it was saved, whatever happened in between.** Once `save` has
stopped a VM and written its file, any commands may follow, as long as none of them writes to that
file: `inspect` of it then prints the state of that VM, pc on the instruction it stopped in, and the
number of the frame asked for, modulo `2 ^ 32`. -/
theorem saved_then_inspected (job job' : Job) (bin trace state : List Char) (atFrame : Nat)
    (hjob : job.inv = .save bin trace state atFrame) (hjob' : job'.inv = .inspect state)
    (file : List UInt8) (vm : VM) (files files' files'' : Files)
    (hsave : (job.action mt19937).run files = some (.saved (.saved (some file) vm), files'))
    (log : List (Job × JobReport))
    (hlog : Runs (Job.action mt19937) (Spares {state}) log files' files'') :
    (job'.action mt19937).run files'' =
      some (.inspected (some ([(.frameIndex, printfU (atFrame % 2 ^ 32)),
        (.haltReason, ['6']), (.pc, printf08X (vm.state.pc - 4)),
        (.sp, "0x000ffffc".toList), (.flags, zcs vm.state.flags)] ++
          (List.finRange 8).map fun i => (.reg i, printfU (vm.state.regs.get i).toNat))),
        files'') := by
  obtain ⟨rfl, hsane, hstate⟩ := save_leaves mt19937 hjob hsave
  rw [← spares_frame mt19937 hlog rfl] at hstate
  have hload := checkpointLoad_checkpointSave (saveCheckpoint atFrame vm.state)
  have hindex : (UInt32.ofNat atFrame).toNat = atFrame % 2 ^ 32 := UInt32.toNat_ofNat'
  have hsp : printf08X vm.state.sp = "0x000ffffc".toList := by
    rw [hsane.sp]
    decide +kernel
  have hsix : printfU HaltReason.checkpoint.code.toNat = ['6'] := by decide +kernel
  rw [inspect_run mt19937 hjob', hstate, cmdInspect_of_load hload, ← hindex, ← hsp, ← hsix]
  unfold Field.all
  rw [List.map_append, List.map_map]
  rfl

/-- The file of a save, if that is what is reported. -/
def JobReport.written : JobReport → Option (List UInt8)
  | .saved out => out.written
  | _ => none

theorem JobReport.of_written {report : JobReport} {file : List UInt8}
    (h : report.written = some file) : ∃ vm, report = .saved (.saved (some file) vm) := by
  cases report with
  | saved out =>
    obtain ⟨vm, rfl⟩ := SaveOutcome.of_written h
    exact ⟨vm, rfl⟩
  | _ => cases h

/-- `save p t s --at-frame=0` of `IN R0; HALT`, `run q`, `inspect s`. -/
theorem saved_then_inspected_in :
    let inspect : Job := ⟨.inspect ['s'], fun _ => 0, fun _ => 0, fun _ => true, 0⟩
    ∃ files rows, (inspect.action fun _ _ => 0).run files =
      some (.inspected (some rows), files) ∧ (.frameIndex, printfU 0) ∈ rows := by
  intro inspect
  let save : Job := ⟨.save ['p'] ['t'] ['s'] 0, fun _ => 0, fun _ => 0, fun _ => true, 2⟩
  let shown : Job := ⟨.inspect ['q'], fun _ => 0, fun _ => 0, fun _ => true, 0⟩
  have hwritten : (((save.action fun _ _ => 0).run
      (overlay (wrote ['p'] (imageOf [encode 0x09 0 0 0, 0]))
        (wrote ['t'] (traceFile [⟨1, 0x09, 5⟩])))).bind fun e => e.1.written).isSome := by
    decide +kernel
  obtain ⟨file, hfile⟩ := Option.isSome_iff_exists.mp hwritten
  obtain ⟨⟨report, files'⟩, hrun, hreport⟩ := Option.bind_eq_some_iff.mp hfile
  obtain ⟨vm, rfl⟩ := JobReport.of_written hreport
  have hlog : Runs (Job.action fun _ _ => 0) (Spares {['s']}) [(shown, _)] files' files' :=
    .cons (Set.disjoint_empty _) (inspect_run _ rfl files') (.nil files')
  exact ⟨files', _, saved_then_inspected (fun _ _ => 0) save inspect ['p'] ['t'] ['s'] 0 rfl rfl
    file vm _ _ _ hrun _ hlog, List.mem_append_left _ List.mem_cons_self⟩

end Sessions

end RetroVM

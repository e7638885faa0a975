import RetroVM.Checkpoint.Format
import RetroVM.Trace.Drivers

/-!
# Save and restore (`main.cpp`, `cmd_save` / `cmd_restore`)

`cmd_save` replays a trace with the sink firing on every cycle, and writes a `.state` file on the
cycle of the frame asked for, while that frame is the one under the cursor. `cmd_restore` loads a
`.state` file into a fresh VM, its cycle count derived from the frame under the cursor, and goes on
replaying from there.

Results:
* `cmdSave_eq_some_iff`, `cmdRestore_eq_some_iff`: the runs behind the two commands.
* `cmdSave_unique`, `cmdRestore_unique`: what they come to does not depend on the fuel.
-/

namespace RetroVM

/-! ## Save -/

/-- What the sink of `cmd_save` keeps next to the cursor: `saved`, and the file at `state_path`. -/
structure SaveState where
  saved : Bool
  file  : Option (List UInt8)
  deriving DecidableEq

/-- What the sink of `cmd_save` writes. -/
def saveCheckpoint (atFrame : Nat) (vs : VMState) : CheckpointState where
  frameIndex := UInt32.ofNat atFrame
  halted := HaltReason.checkpoint.code
  flags := vs.flags
  regs := vs.regs
  pc := vs.pc - 4
  sp := vs.sp

/-- The sink of `cmd_save`; `writable` says whether `checkpoint_save` succeeds. -/
def saveSink (atFrame : Nat) (targetCycle : UInt64) (writable : Bool) :
    SnapshotSink (Nat × SaveState) := fun _ vm (cursor, sn) =>
  if sn.saved then (none, (cursor, sn))
  else if cursor ≠ atFrame then (none, (cursor, sn))
  else if vm.state.cycleCount ≠ targetCycle then (none, (cursor, sn))
  else if ¬ writable then (none, (cursor, { sn with saved := true }))
  else (some .checkpoint,
    (cursor, ⟨true, some (checkpointSave (saveCheckpoint atFrame vm.state))⟩))

/-- What is wired to the VM of `cmd_save`. -/
def saveEnv (reader : Trace) (atFrame : Nat) (targetCycle : UInt64) (writable : Bool) :
    Env (Nat × SaveState) :=
  ⟨(replayHooks reader).beside SaveState, some (saveSink atFrame targetCycle writable),
    .computedGoto⟩

/-- What `cmd_save` reports. -/
inductive SaveOutcome where
  /-- `--at-frame` is not below `frame_count`. -/
  | outOfRange
  /-- The program exceeds `MEM_SIZE`. -/
  | tooLarge
  /-- A `TraceMismatch` was caught. -/
  | aborted (div : TraceMismatch)
  /-- The VM halted with another reason before the frame. -/
  | early (r : HaltReason) (consumed : Nat)
  /-- The cursor is not where it was asked to be. -/
  | cursorMismatch (got : Nat)
  /-- The VM halted on the frame; `file` is what was written. -/
  | saved (file : Option (List UInt8)) (vm : VM)

/-- The verdict of `cmd_save` on how its run ended. -/
def saveVerdict (atFrame : Nat) (x : Exit (Nat × SaveState)) : SaveOutcome :=
  match x.stop with
  | .threw div => .aborted div
  | .returned r =>
    if r ≠ .checkpoint then .early r x.machine.env.1
    else if x.machine.env.1 ≠ atFrame then .cursorMismatch x.machine.env.1
    else .saved x.machine.env.2.file x.machine.vm

/-- `cmd_save`. -/
def cmdSave (bytes : List UInt8) (reader : Trace) (atFrame : Nat) (writable : Bool)
    (fuel : Nat) : Option SaveOutcome :=
  match reader[atFrame]? with
  | none => some .outOfRange
  | some target =>
    match VM.boot bytes with
    | none => some .tooLarge
    | some vm =>
      (StepLoop.exec (turn (saveEnv reader atFrame target.cycle writable)) fuel
        (.start (vm.setSnapshotInterval 1) (0, ⟨false, none⟩))).map (saveVerdict atFrame)

/-- The exit code of `cmd_save`. -/
def SaveOutcome.exitCode : SaveOutcome → Nat
  | .outOfRange => 1
  | .tooLarge => 1
  | .aborted _ => 3
  | .early .. => 1
  | .cursorMismatch _ => 1
  | .saved .. => 0

/-! ## Restore -/

/-- The `VMState` `cmd_restore` rebuilds; the next fetch counts to `cycle`. -/
def restoredState (cstate : CheckpointState) (cycle : UInt64) : VMState where
  cycleCount := cycle - 1
  regs := cstate.regs
  pc := cstate.pc
  sp := cstate.sp
  flags := cstate.flags
  halted := .running
  snapInterval := 0
  snapTimer := 0

/-- What `cmd_restore` reports. -/
inductive RestoreOutcome where
  /-- `checkpoint_load` rejected the file. -/
  | unreadable (e : CheckpointError)
  /-- The saved frame index is not below `frame_count`. -/
  | outOfRange
  /-- The frame under the cursor has cycle 0. -/
  | corrupt
  /-- The program exceeds `MEM_SIZE`. -/
  | tooLarge
  /-- A `TraceMismatch` was caught; the reason printed is not initialised. -/
  | diverged (div : TraceMismatch) (vm : VM) (consumed : Nat)
  /-- The run ended with `count` frames unread. -/
  | unread (count : Nat) (r : HaltReason) (vm : VM)
  /-- `restore OK`, `replayed` frames after the checkpoint. -/
  | restored (replayed : Nat) (r : HaltReason) (vm : VM)

/-- The verdict of `cmd_restore` on how its run ended. -/
def restoreVerdict (reader : Trace) (frameIndex : UInt32) (x : Exit Nat) : RestoreOutcome :=
  match x.stop with
  | .threw div => .diverged div x.machine.vm x.machine.env
  | .returned r =>
    let consumed := x.machine.env
    if consumed < reader.length then .unread (reader.length - consumed) r x.machine.vm
    else .restored (consumed - frameIndex.toNat) r x.machine.vm

/-- `cmd_restore` up to `vm.run()`: the frame index it read, and the machine it runs; `file` is what
is at `state_path`. -/
def restoreStart (bytes : List UInt8) (reader : Trace) (file : List UInt8) :
    Except RestoreOutcome (UInt32 × Machine Nat) :=
  match checkpointLoad file with
  | .error e => .error (.unreadable e)
  | .ok cstate =>
    match reader[cstate.frameIndex.toNat]? with
    | none => .error .outOfRange
    | some nextFrame =>
      if nextFrame.cycle = 0 then .error .corrupt
      else
        match VM.boot bytes with
        | none => .error .tooLarge
        | some vm =>
          .ok (cstate.frameIndex, .start (vm.setState (restoredState cstate nextFrame.cycle))
            cstate.frameIndex.toNat)

/-- `cmd_restore`. -/
def cmdRestore (bytes : List UInt8) (reader : Trace) (file : List UInt8) (fuel : Nat) :
    Option RestoreOutcome :=
  match restoreStart bytes reader file with
  | .error out => some out
  | .ok (frameIndex, m) =>
    (StepLoop.exec (turn (replayEnv reader)) fuel m).map (restoreVerdict reader frameIndex)

/-- The exit code of `cmd_restore`. -/
def RestoreOutcome.exitCode : RestoreOutcome → Nat
  | .unreadable _ => 1
  | .outOfRange => 1
  | .corrupt => 1
  | .tooLarge => 1
  | .diverged .. => 3
  | .unread .. => 3
  | .restored _ r _ => if r = .normal then 0 else 2

/-! ## The runs behind the commands -/

section Runs

variable {bytes : List UInt8} {vm0 : VM} {reader : Trace} {fuel : Nat}

theorem cmdSave_eq_some_iff (hb : VM.boot bytes = some vm0) {atFrame : Nat} {f : TraceFrame}
    (hf : reader[atFrame]? = some f) {writable : Bool} {out : SaveOutcome} :
    cmdSave bytes reader atFrame writable fuel = some out ↔
      ∃ x, StepLoop.after (Machine.cycle (saveEnv reader atFrame f.cycle writable)) fuel
          (.start (vm0.setSnapshotInterval 1) (0, ⟨false, none⟩)) = .error x ∧
        saveVerdict atFrame x = out := by
  have hrun : (Machine.start (vm0.setSnapshotInterval 1)
      ((0, ⟨false, none⟩) : Nat × SaveState)).state.halted = .running := (boot_running hb).1
  unfold cmdSave
  simp only [hf, hb, exec_turn_eq _ hrun, Option.map_eq_some_iff, StepLoop.exec_eq_some_iff]

theorem restoreStart_eq_ok (hb : VM.boot bytes = some vm0) {file : List UInt8}
    {cstate : CheckpointState} (hl : checkpointLoad file = .ok cstate) {f : TraceFrame}
    (hf : reader[cstate.frameIndex.toNat]? = some f) (hc : f.cycle ≠ 0) :
    restoreStart bytes reader file = .ok (cstate.frameIndex,
      .start (vm0.setState (restoredState cstate f.cycle)) cstate.frameIndex.toNat) := by
  unfold restoreStart
  simp only [hl, hf, hb, if_neg hc]

theorem cmdRestore_eq_some_iff (hb : VM.boot bytes = some vm0) {file : List UInt8}
    {cstate : CheckpointState} (hl : checkpointLoad file = .ok cstate) {f : TraceFrame}
    (hf : reader[cstate.frameIndex.toNat]? = some f) (hc : f.cycle ≠ 0) {out : RestoreOutcome} :
    cmdRestore bytes reader file fuel = some out ↔
      ∃ x, StepLoop.after (Machine.cycle (replayEnv reader)) fuel
          (.start (vm0.setState (restoredState cstate f.cycle)) cstate.frameIndex.toNat) =
            .error x ∧
        restoreVerdict reader cstate.frameIndex x = out := by
  have hrun : (Machine.start (vm0.setState (restoredState cstate f.cycle))
      cstate.frameIndex.toNat).state.halted = .running := rfl
  unfold cmdRestore
  simp only [restoreStart_eq_ok hb hl hf hc, exec_turn_eq _ hrun, Option.map_eq_some_iff,
    StepLoop.exec_eq_some_iff]

theorem restoreVerdict_eq_restored {frameIndex : UInt32} {x : Exit Nat} {n : Nat}
    {r : HaltReason} {vm : VM} :
    restoreVerdict reader frameIndex x = .restored n r vm ↔
      x.stop = .returned r ∧ reader.length ≤ x.machine.env ∧
        n = x.machine.env - frameIndex.toNat ∧ x.machine.vm = vm := by
  unfold restoreVerdict
  cases x.stop with
  | threw e => simp
  | returned r' =>
    by_cases hc : x.machine.env < reader.length
    · simp [hc]
    · simp only [hc, if_false, RestoreOutcome.restored.injEq, Stop.returned.injEq]
      constructor
      · rintro ⟨rfl, rfl, rfl⟩
        exact ⟨rfl, Nat.le_of_not_lt hc, rfl, rfl⟩
      · rintro ⟨rfl, -, rfl, rfl⟩
        exact ⟨rfl, rfl, rfl⟩

/-- The fuel does not decide what `cmd_save` comes to. -/
theorem cmdSave_unique {atFrame fuel' : Nat} {writable : Bool} {out out' : SaveOutcome}
    (h : cmdSave bytes reader atFrame writable fuel = some out)
    (h' : cmdSave bytes reader atFrame writable fuel' = some out') : out = out' := by
  unfold cmdSave at h h'
  cases hf : reader[atFrame]? with
  | none =>
    rw [hf] at h h'
    exact Option.some.inj (h.symm.trans h')
  | some f =>
    cases hb : VM.boot bytes with
    | none =>
      rw [hf, hb] at h h'
      exact Option.some.inj (h.symm.trans h')
    | some vm =>
      rw [hf, hb] at h h'
      exact StepLoop.exec_map_unique h h'

/-- Nor what `cmd_restore` does. -/
theorem cmdRestore_unique {file : List UInt8} {fuel' : Nat} {out out' : RestoreOutcome}
    (h : cmdRestore bytes reader file fuel = some out)
    (h' : cmdRestore bytes reader file fuel' = some out') : out = out' := by
  unfold cmdRestore at h h'
  cases hs : restoreStart bytes reader file with
  | error e =>
    rw [hs] at h h'
    exact Option.some.inj (h.symm.trans h')
  | ok start =>
    rw [hs] at h h'
    exact StepLoop.exec_map_unique h h'

end Runs

end RetroVM

import RetroVM.Checkpoint.Drivers

/-!
# What the drivers report (`main.cpp`, `cmd_replay` / `cmd_restore`, `dump_state`)

Both drivers declare `HaltReason r;` without a value, assign it from `vm.run()` inside a `try`, and
hand it to `dump_state` on every way out. A throw passes the assignment by, and the handler of
`cmd_replay` makes up for it; the one of `cmd_restore` does not. What the declaration left in `r` is
a parameter here: a report is the driver's own only if it is the same for every value of it.

Results:
* `replay_reports_mismatch`: `cmd_replay` reports the kind of every mismatch.
* `restore_reports_halt`: `cmd_restore` reports the reason of every run that returned.
* **`restore_never_reports_mismatch`**: it reports the kind of no mismatch.
-/

namespace RetroVM

/-- What is left of a command: its exit code, and the number behind `halt reason:`, if `dump_state`
was reached. -/
structure Report where
  exitCode : Nat
  reason   : Option UInt32
  deriving DecidableEq

/-- `r` after `try { r = vm.run(); }`; before it, `r` held `junk`. -/
def Exit.assigned {ε : Type} (junk : UInt32) (x : Exit ε) : UInt32 :=
  match x.stop with
  | .returned r => r.code
  | .threw _ => junk

/-- `div.premature_eof() ? HALT_TRACE_EOF : HALT_DIVERGED`. -/
def TraceMismatch.reason (div : TraceMismatch) : HaltReason :=
  if div.prematureEof then .traceEof else .diverged

/-- What `cmd_replay` reports of its run: the handler assigns `r` before it prints it. -/
def replayReport (reader : Trace) (junk : UInt32) (x : Exit Nat) : Report :=
  let r := x.assigned junk
  let r := match x.stop with
    | .threw div => div.reason.code
    | .returned _ => r
  ⟨(replayVerdict reader x).exitCode, some r⟩

/-- What `cmd_restore` reports of its run: the handler prints `r` as it is. -/
def restoreReport (reader : Trace) (frameIndex : UInt32) (junk : UInt32) (x : Exit Nat) : Report :=
  let r := x.assigned junk
  ⟨(restoreVerdict reader frameIndex x).exitCode, some r⟩

/-- `cmd_replay`, by what it reports. -/
def cmdReplayReport (junk : UInt32) (bytes : List UInt8) (reader : Trace) (fuel : Nat) :
    Option Report :=
  match VM.boot bytes with
  | none => some ⟨ReplayOutcome.tooLarge.exitCode, none⟩
  | some vm =>
    (StepLoop.exec (turn (replayEnv reader)) fuel (.start vm 0)).map (replayReport reader junk)

/-- `cmd_restore`, by what it reports. -/
def cmdRestoreReport (junk : UInt32) (bytes : List UInt8) (reader : Trace) (file : List UInt8)
    (fuel : Nat) : Option Report :=
  match restoreStart bytes reader file with
  | .error out => some ⟨out.exitCode, none⟩
  | .ok (frameIndex, m) =>
    (StepLoop.exec (turn (replayEnv reader)) fuel m).map (restoreReport reader frameIndex junk)

/-- The reason `run` returned, where it returned one. -/
def RestoreOutcome.returned : RestoreOutcome → Option HaltReason
  | .unread _ r _ => some r
  | .restored _ r _ => some r
  | _ => none

/-- The mismatch `run` threw, where it threw one. -/
def RestoreOutcome.mismatch : RestoreOutcome → Option TraceMismatch
  | .diverged div _ _ => some div
  | _ => none

section Reports

variable {bytes : List UInt8} {reader : Trace} {file : List UInt8} {fuel : Nat}
  {div : TraceMismatch} {vm : VM} {n : Nat}

/-- A diverged replay is a run that threw. -/
theorem replayVerdict_eq_diverged {x : Exit Nat} {r : HaltReason} :
    replayVerdict reader x = .diverged div r vm n ↔
      x.stop = .threw div ∧ r = div.reason ∧ x.machine.vm = vm ∧ x.machine.env = n := by
  unfold replayVerdict TraceMismatch.reason
  cases x.stop with
  | threw e =>
    simp only [ReplayOutcome.diverged.injEq, Stop.threw.injEq]
    constructor
    · rintro ⟨rfl, rfl, rfl, rfl⟩
      exact ⟨rfl, rfl, rfl, rfl⟩
    · rintro ⟨rfl, rfl, rfl, rfl⟩
      exact ⟨rfl, rfl, rfl, rfl⟩
  | returned r' =>
    by_cases hc : x.machine.env < reader.length <;> simp [hc]

/-- A diverged restore is one too. -/
theorem restoreVerdict_eq_diverged {frameIndex : UInt32} {x : Exit Nat} :
    restoreVerdict reader frameIndex x = .diverged div vm n ↔
      x.stop = .threw div ∧ x.machine.vm = vm ∧ x.machine.env = n := by
  unfold restoreVerdict
  cases x.stop with
  | threw e => simp
  | returned r' =>
    by_cases hc : x.machine.env < reader.length <;> simp [hc]

/-- **`cmd_replay` reports the kind of every mismatch**, and prints what its verdict says. -/
theorem replay_reports_mismatch {r : HaltReason} (junk : UInt32)
    (h : cmdReplay bytes reader fuel = some (.diverged div r vm n)) :
    r = div.reason ∧ cmdReplayReport junk bytes reader fuel = some ⟨3, some div.reason.code⟩ := by
  unfold cmdReplay at h
  unfold cmdReplayReport
  cases hb : VM.boot bytes with
  | none =>
    rw [hb] at h
    cases h
  | some vm0 =>
    simp only [hb] at h ⊢
    obtain ⟨x, hx, hv⟩ := Option.map_eq_some_iff.mp h
    obtain ⟨hstop, hr, -, -⟩ := replayVerdict_eq_diverged.mp hv
    refine ⟨hr, ?_⟩
    rw [hx, Option.map_some]
    unfold replayReport
    rw [hv, hstop]
    rfl

/-- What `cmd_restore` gives up on before it runs is neither. -/
theorem restoreStart_error {out : RestoreOutcome}
    (h : restoreStart bytes reader file = .error out) :
    out.returned = none ∧ out.mismatch = none := by
  unfold restoreStart at h
  split at h
  · cases h
    exact ⟨rfl, rfl⟩
  · split at h
    · cases h
      exact ⟨rfl, rfl⟩
    · split at h
      · cases h
        exact ⟨rfl, rfl⟩
      · split at h
        · cases h
          exact ⟨rfl, rfl⟩
        · cases h

/-- The runs behind a report of `cmd_restore`. -/
theorem cmdRestore_run {out : RestoreOutcome}
    (h : cmdRestore bytes reader file fuel = some out) :
    restoreStart bytes reader file = .error out ∨
      ∃ frameIndex x, restoreVerdict reader frameIndex x = out ∧
        ∀ junk, cmdRestoreReport junk bytes reader file fuel =
          some ⟨out.exitCode, some (x.assigned junk)⟩ := by
  unfold cmdRestore at h
  unfold cmdRestoreReport
  cases hs : restoreStart bytes reader file with
  | error e =>
    rw [hs] at h
    exact .inl (congrArg _ (Option.some.inj h))
  | ok start =>
    simp only [hs] at h ⊢
    obtain ⟨x, hx, rfl⟩ := Option.map_eq_some_iff.mp h
    exact .inr ⟨start.1, x, rfl, fun junk => by rw [hx]; rfl⟩

/-- After a mismatch `cmd_restore` prints what `r` happened to hold. -/
theorem restore_reports_junk (h : cmdRestore bytes reader file fuel = some (.diverged div vm n))
    (junk : UInt32) :
    cmdRestoreReport junk bytes reader file fuel = some ⟨3, some junk⟩ := by
  obtain hs | ⟨frameIndex, x, hv, hreport⟩ := cmdRestore_run h
  · cases (restoreStart_error hs).2
  · obtain ⟨hstop, -, -⟩ := restoreVerdict_eq_diverged.mp hv
    rw [hreport junk]
    unfold Exit.assigned
    rw [hstop]
    rfl

/-- After a run that returned it prints the reason, whatever `r` held. -/
theorem restore_reports_halt {out : RestoreOutcome} {r : HaltReason}
    (h : cmdRestore bytes reader file fuel = some out) (hr : out.returned = some r)
    (junk : UInt32) :
    cmdRestoreReport junk bytes reader file fuel = some ⟨out.exitCode, some r.code⟩ := by
  obtain hs | ⟨frameIndex, x, rfl, hreport⟩ := cmdRestore_run h
  · rw [(restoreStart_error hs).1] at hr
    cases hr
  · rw [hreport junk]
    unfold Exit.assigned
    cases hstop : x.stop with
    | threw div =>
      rw [restoreVerdict_eq_diverged.mpr ⟨hstop, rfl, rfl⟩] at hr
      cases hr
    | returned r' =>
      have hr' : some r' = some r := by
        rw [← hr]
        unfold restoreVerdict
        rw [hstop]
        simp only
        split <;> rfl
      cases hr'
      rfl

/-- `cmd_restore` reports a mismatch as `cmd_replay` does: it exits with 3 and prints its kind,
whatever `r` held. -/
def ReportsMismatch (bytes : List UInt8) (reader : Trace) (file : List UInt8) (fuel : Nat)
    (div : TraceMismatch) : Prop :=
  ∀ junk, cmdRestoreReport junk bytes reader file fuel = some ⟨3, some div.reason.code⟩

/-- **No mismatch is reported by a restore.** For every image, trace and `.state` file from which
the resumed run throws, `cmd_restore` exits with 3 and prints what `r` happened to hold. -/
theorem restore_never_reports_mismatch
    (h : cmdRestore bytes reader file fuel = some (.diverged div vm n)) :
    (∀ junk, cmdRestoreReport junk bytes reader file fuel = some ⟨3, some junk⟩) ∧
      ¬ ReportsMismatch bytes reader file fuel div := by
  refine ⟨restore_reports_junk h, fun hall => ?_⟩
  have hkind : ∀ junk, junk = div.reason.code := fun junk => by
    have := (restore_reports_junk h junk).symm.trans (hall junk)
    cases this
    rfl
  exact absurd ((hkind 0).trans (hkind 1).symm) (by decide)

end Reports

/-! ## Two reads and one frame -/

/-- `IN R0; IN R1; HALT`. -/
def readTwice : List UInt8 := imageOf [encode 0x09 0 0 0, encode 0x09 1 0 0, 0]

/-- A checkpoint at the first of the two. -/
def atFirstRead : List UInt8 := checkpointSave ⟨0, 6, 0, Vector.replicate 8 0, 0, 0xFFFFC⟩

theorem diverged_of_mismatch {bytes : List UInt8} {reader : Trace} {file : List UInt8} {fuel : Nat}
    {div : TraceMismatch}
    (h : (cmdRestore bytes reader file fuel).bind RestoreOutcome.mismatch = some div) :
    ∃ vm n, cmdRestore bytes reader file fuel = some (.diverged div vm n) := by
  obtain ⟨out, hout, hd⟩ := Option.bind_eq_some_iff.mp h
  cases out with
  | diverged div' vm n =>
    cases hd
    exact ⟨vm, n, hout⟩
  | _ => cases hd

/-- The trace ends before the second read does: `HALT_TRACE_EOF` is not what is printed. -/
theorem restore_prints_running_for_eof :
    ∃ div vm n, cmdRestore readTwice [⟨1, 0x09, 5⟩] atFirstRead 2 = some (.diverged div vm n) ∧
      div.prematureEof = true ∧
      cmdRestoreReport 0 readTwice [⟨1, 0x09, 5⟩] atFirstRead 2 = some ⟨3, some 0⟩ ∧
      ¬ ReportsMismatch readTwice [⟨1, 0x09, 5⟩] atFirstRead 2 div := by
  have hkind : (cmdRestore readTwice [⟨1, 0x09, 5⟩] atFirstRead 2).bind RestoreOutcome.mismatch =
      some ⟨2, 0x09, 0, 0, 1, true⟩ := by
    decide +kernel
  obtain ⟨vm, n, h⟩ := diverged_of_mismatch hkind
  refine ⟨_, vm, n, h, rfl, restore_reports_junk h 0, fun hall => ?_⟩
  have := (restore_reports_junk h 0).symm.trans (hall 0)
  cases this

/-- The second frame is of another opcode: nor is `HALT_DIVERGED`. -/
theorem restore_prints_running_for_divergence :
    ∃ div, ¬ ReportsMismatch readTwice [⟨1, 0x09, 5⟩, ⟨2, 0x0A, 6⟩] atFirstRead 2 div ∧
      div.prematureEof = false := by
  have hkind : (cmdRestore readTwice [⟨1, 0x09, 5⟩, ⟨2, 0x0A, 6⟩] atFirstRead 2).bind
      RestoreOutcome.mismatch = some ⟨2, 0x09, 2, 0x0A, 1, false⟩ := by
    decide +kernel
  obtain ⟨vm, n, h⟩ := diverged_of_mismatch hkind
  exact ⟨_, (restore_never_reports_mismatch h).2, rfl⟩

end RetroVM

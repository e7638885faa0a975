import RetroVM.Checkpoint.Format
import RetroVM.Trace.Drivers
import RetroVM.Snapshot.DeltaLog
import RetroVM.Lib.HistoryRing
import Mathlib.Data.Finset.Basic

/-!
# The debugger (`main.cpp`, `cmd_debug` / `cmd_debug_run`)

A REPL session is a machine whose closures are the hooks of its mode, over `η`, and `CmdDebug`, the
state of the sink. `command` is what one line of the REPL does, once parsed; the lines that only
print are left out. A line that runs the VM has fuel; `none` is a run the fuel did not see the end
of.

`Reached` are the prompts a session can come to. It carries two ghosts: the snapshots of the current
timeline, baseline first, and how many of them the last run pushed. A run appends the snapshots it
fired, `back n` takes the last `n` off.

Results:
* `resize_eq_take`, `history_push`: what the deque operations of the sink come to.
* `command_cases`: what a line of the REPL can do.
-/

namespace RetroVM

open HistoryRing

variable {η : Type}

/-- `UINT64_MAX`, the step boundary that is off. -/
def uint64Max : UInt64 := 0xFFFFFFFFFFFFFFFF

/-- `struct ReplSnapshot`. -/
structure ReplSnapshot where
  core   : Snapshot
  cursor : Nat
  deriving DecidableEq

/-- A value-initialised `ReplSnapshot`, with which `resize` fills. -/
instance : Inhabited ReplSnapshot :=
  ⟨⟨⟨0, Vector.replicate 8 0, 0, 0, 0, .running, []⟩, 0⟩⟩

/-- `struct CmdDebug`, the VM and the cursor apart. -/
structure CmdDebug where
  targetCycle  : UInt64 := uint64Max
  breakpoints  : Finset UInt32 := ∅
  ring         : List ReplSnapshot := []
  historyIndex : Nat := 0

/-- `kRingCap`. -/
def ringCap : Nat := 256

/-- The hooks of a mode, the cursor a `ReplSnapshot` keeps, and how `back` restores it. -/
structure ReplMode (η : Type) where
  hooks         : IOHooks η
  cursor        : η → Nat
  rewind        : Nat → η → η
  cursor_rewind : ∀ e e', cursor (rewind (cursor e) e') = cursor e

/-- Replay mode. -/
def replayMode (reader : Trace) : ReplMode Nat where
  hooks := replayHooks reader
  cursor := id
  rewind := fun cursor _ => cursor
  cursor_rewind _ _ := rfl

/-- Fresh mode: stdin and the generator as value streams, read so far as the pair says. -/
def freshMode (stdin rng : Nat → UInt32) : ReplMode (Nat × Nat) where
  hooks := {
    inHook := some fun _ e => (.ok (stdin e.1), (e.1 + 1, e.2))
    randHook := some fun _ e => (.ok (rng e.2), (e.1, e.2 + 1))
    onNondeterministic := none }
  cursor := fun _ => 0
  rewind := fun _ e => e
  cursor_rewind _ _ := rfl

/-- A session of the REPL. -/
abbrev Repl (η : Type) := Machine (η × CmdDebug)

/-! ## The sink -/

/-- `std::deque::resize`. -/
def resize (ring : List ReplSnapshot) (n : Nat) : List ReplSnapshot :=
  ring.take n ++ List.replicate (n - ring.length) default

/-- Push a snapshot onto the ring. -/
def CmdDebug.push (d : CmdDebug) (rs : ReplSnapshot) : CmdDebug :=
  let ring := resize d.ring (d.historyIndex + 1) ++ [rs]
  if ring.length > ringCap then { d with ring := ring.tail }
  else { d with ring, historyIndex := d.historyIndex + 1 }

/-- The sink `install_debug_sink` installs. -/
def debugSink (io : ReplMode η) : SnapshotSink (η × CmdDebug) := fun s _ (e, d) =>
  let rs : ReplSnapshot := ⟨s, io.cursor e⟩
  if d.targetCycle ≠ uint64Max ∧ s.cycleCount ≥ d.targetCycle then
    (some .step, (e, { d with targetCycle := uint64Max }.push rs))
  else if s.pc - 4 ∈ d.breakpoints then (some .breakpoint, (e, d.push rs))
  else (none, (e, d.push rs))

/-- What is wired to the VM of `cmd_debug`. -/
def debugEnv (io : ReplMode η) : Env (η × CmdDebug) :=
  ⟨io.hooks.beside CmdDebug, some (debugSink io), .computedGoto⟩

/-- What is left of it without the sink. -/
def plainEnv (io : ReplMode η) : Env η := ⟨io.hooks, none, .computedGoto⟩

/-! ## Commands -/

/-- A line of the REPL that does more than print. -/
inductive Command where
  | step (n : UInt64)
  | «continue»
  | back (n : UInt64)
  | breakpoint (addr : UInt64)
  | breakpointDelete (addr : UInt64)
  | save

/-- What a line leaves: the next prompt, or a REPL that exits on a divergence. -/
inductive Reply (η : Type) where
  | prompt (m : Repl η)
  | diverged (e : TraceMismatch) (m : Repl η)

/-- An assignment to `CmdDebug`. -/
def Machine.setDebug (m : Repl η) (d : CmdDebug) : Repl η := { m with env := (m.env.1, d) }

/-- An assignment to `target_cycle`. -/
def Machine.setTarget (m : Repl η) (c : UInt64) : Repl η :=
  m.setDebug { m.env.2 with targetCycle := c }

/-- `debug_resume`: `none` when it refuses. -/
def debugResume (m : Repl η) : Option (Repl η) :=
  match m.state.halted with
  | .running => some m
  | .breakpoint | .step | .checkpoint => some (m.setHalted .running)
  | _ => none

/-- Run the VM from a prompt. -/
def runFrom (io : ReplMode η) (fuel : Nat) (m : Repl η) : Option (Reply η) :=
  (StepLoop.exec (turn (debugEnv io)) fuel m).map fun x =>
    match x.stop with
    | .threw e => .diverged e x.machine
    | .returned _ => .prompt x.machine

/-- `back`: undo the deltas, restore registers and cursor, move the history index. -/
def backTo (io : ReplMode η) (n : Nat) (m : Repl η) : Repl η :=
  let d := m.env.2
  if n = 0 then m
  else if n > d.historyIndex then m
  else
    let target := d.historyIndex - n
    match d.ring[target]? with
    | none => m
    | some tgt =>
      let undone := ((d.ring.take (d.historyIndex + 1)).drop (target + 1)).map (·.core)
      let vm := m.vm.unwind undone
      { m with
        vm := vm.setState { vm.state with
          cycleCount := tgt.core.cycleCount
          regs := tgt.core.regs
          pc := tgt.core.pc
          sp := tgt.core.sp
          flags := tgt.core.flags
          halted := tgt.core.halted }
        env := (io.rewind tgt.cursor m.env.1, { d with historyIndex := target }) }

/-- The pc a breakpoint argument stands for. -/
def breakpointPc (addr : UInt64) : UInt32 := addr.toUInt32 &&& memMask &&& 0xFFFFFFFC

/-- One line of `cmd_debug_run`. -/
def command (io : ReplMode η) (fuel : Nat) (m : Repl η) : Command → Option (Reply η)
  | .step n =>
    if n = 0 then some (.prompt m)
    else
      match debugResume m with
      | none => some (.prompt m)
      | some m => runFrom io fuel (m.setTarget (m.state.cycleCount + n))
  | .continue =>
    match debugResume m with
    | none => some (.prompt m)
    | some m => runFrom io fuel (m.setTarget uint64Max)
  | .back n => some (.prompt (backTo io n.toNat m))
  | .breakpoint addr =>
    let d := m.env.2
    some (.prompt (m.setDebug { d with
      breakpoints := insert (breakpointPc addr) d.breakpoints }))
  | .breakpointDelete addr =>
    let d := m.env.2
    some (.prompt (m.setDebug { d with
      breakpoints := d.breakpoints.erase (breakpointPc addr) }))
  | .save => some (.prompt m)

/-- The checkpoint `save` writes. -/
def replCheckpoint (io : ReplMode η) (m : Repl η) : CheckpointState where
  frameIndex := UInt32.ofNat (io.cursor m.env.1)
  halted := m.state.halted.code
  flags := m.state.flags
  regs := m.state.regs
  pc := if m.state.halted = .running then m.state.pc else m.state.pc - 4
  sp := m.state.sp

/-- `cmd_debug` up to its first prompt, the baseline in the ring: `none` for a program that exceeds
`MEM_SIZE`. -/
def debugStart (io : ReplMode η) (bytes : List UInt8) (e : η) : Option (Repl η) :=
  match VM.boot bytes with
  | none => none
  | some vm =>
    let (s, vm) := (vm.setSnapshotInterval 1).takeSnapshot
    some (.start vm (e, { ring := [⟨s, io.cursor e⟩] }))

/-- The first prompt of a session. -/
theorem debugStart_eq_some {io : ReplMode η} {bytes : List UInt8} {e : η} {m : Repl η}
    (h : debugStart io bytes e = some m) :
    ∃ vm, VM.boot bytes = some vm ∧
      m = .start (vm.setSnapshotInterval 1).takeSnapshot.2
        (e, { ring := [⟨(vm.setSnapshotInterval 1).takeSnapshot.1, io.cursor e⟩] }) := by
  unfold debugStart at h
  cases hb : VM.boot bytes with
  | none =>
    rw [hb] at h
    cases h
  | some vm =>
    rw [hb] at h
    exact ⟨vm, rfl, (Option.some.inj h).symm⟩

/-! ## Sessions -/

/-- A snapshot of the timeline: the VM and the closures when it was taken. -/
abbrev Moment (η : Type) := Firing (η × CmdDebug)

/-- What the ring keeps of it. -/
def Firing.entry (io : ReplMode η) (f : Moment η) : ReplSnapshot := ⟨f.snapshot, io.cursor f.env.1⟩

/-- The baseline. -/
def Machine.baseline (m : Repl η) : Moment η := ⟨m.vm.snapshot, m.vm, m.env⟩

/-- The snapshots fired between two prompts. -/
def firedSince (m m' : Repl η) : List (Moment η) :=
  (firings m'.history).drop (firings m.history).length

/-- The timeline after a line of the REPL. -/
def timelineAfter (timeline : List (Moment η)) (m m' : Repl η) : Command → List (Moment η)
  | .back n =>
    if n.toNat > m.env.2.historyIndex then timeline
    else timeline.take (timeline.length - n.toNat)
  | _ => timeline ++ firedSince m m'

/-- The length of the last run after a line of the REPL. -/
def lastRunAfter (lastRun : Nat) (m m' : Repl η) : Nat :=
  if firedSince m m' = [] then lastRun else (firedSince m m').length

/-- The prompts of a session whose lines are all `issued`. -/
inductive Reached (io : ReplMode η) (bytes : List UInt8) (e : η)
    (issued : Repl η → Command → Prop) : List (Moment η) → Nat → Repl η → Prop
  | start {m : Repl η} : debugStart io bytes e = some m →
      Reached io bytes e issued [m.baseline] 0 m
  | command {timeline : List (Moment η)} {lastRun fuel : Nat} {m m' : Repl η} {c : Command} :
      Reached io bytes e issued timeline lastRun m → issued m c →
        command io fuel m c = some (.prompt m') →
          Reached io bytes e issued (timelineAfter timeline m m' c)
            (lastRunAfter lastRun m m') m'

/-- Any line may be issued. -/
def AnyLine (_ : Repl η) (_ : Command) : Prop := True

/-- The prompt after a script, if every line leads to one. -/
def session (io : ReplMode η) (fuel : Nat) (m : Repl η) : List Command → Option (Repl η)
  | [] => some m
  | c :: cs =>
    match command io fuel m c with
    | some (.prompt m') => session io fuel m' cs
    | _ => none

theorem session_cons {io : ReplMode η} {fuel : Nat} {m m' : Repl η} {c : Command}
    {cs : List Command} (h : session io fuel m (c :: cs) = some m') :
    ∃ u, command io fuel m c = some (.prompt u) ∧ session io fuel u cs = some m' := by
  unfold session at h
  split at h
  · next u hu => exact ⟨u, hu, h⟩
  · cases h

/-- The prompt after a script is one a session can come to. -/
theorem reached_session {io : ReplMode η} {bytes : List UInt8} {e : η}
    {issued : Repl η → Command → Prop} {timeline : List (Moment η)} {lastRun fuel : Nat}
    {m m' : Repl η} (h : Reached io bytes e issued timeline lastRun m) {cs : List Command}
    (hcs : ∀ c ∈ cs, ∀ u, issued u c) (hs : session io fuel m cs = some m') :
    ∃ timeline' lastRun', Reached io bytes e issued timeline' lastRun' m' := by
  induction cs generalizing m timeline lastRun with
  | nil =>
    cases hs
    exact ⟨timeline, lastRun, h⟩
  | cons c cs ih =>
    obtain ⟨u, hu, hrest⟩ := session_cons hs
    exact ih (h.command (hcs c List.mem_cons_self m) hu)
      (fun c' hc' => hcs c' (List.mem_cons_of_mem c hc')) hrest

/-! ## The ring -/

/-- What a ring and its index remember. -/
def CmdDebug.history (d : CmdDebug) : History ReplSnapshot := ⟨d.ring, d.historyIndex⟩

/-- The ring is never shorter than what it is resized to, so nothing is filled in. -/
theorem resize_eq_take {ring : List ReplSnapshot} {n : Nat} (h : n ≤ ring.length) :
    resize ring n = ring.take n := by
  unfold resize
  rw [Nat.sub_eq_zero_of_le h, List.replicate_zero, List.append_nil]

theorem history_push {d : CmdDebug} (h : d.historyIndex < d.ring.length) (rs : ReplSnapshot) :
    (d.push rs).history = d.history.push ringCap rs := by
  unfold CmdDebug.push CmdDebug.history History.push
  rw [resize_eq_take h]
  simp only
  by_cases hfull : (d.ring.take (d.historyIndex + 1) ++ [rs]).length > ringCap
  · rw [if_pos hfull, if_pos hfull]
  · rw [if_neg hfull, if_neg hfull]

/-! ## What a line does -/

/-- The halts that end a program. -/
def HaltReason.natural (r : HaltReason) : Prop := r = .normal ∨ r = .divZero ∨ r = .unknownOp

/-- The halts a run can go on from. -/
def HaltReason.resumable (r : HaltReason) : Prop := r = .running ∨ r = .step ∨ r = .breakpoint

/-- A line that asks for a run up to the step boundary `t`. -/
def Command.RunsTo (c : Command) (m : Repl η) (t : UInt64) : Prop :=
  match c with
  | .step n => n ≠ 0 ∧ t = m.state.cycleCount + n
  | .continue => t = uint64Max
  | _ => False

section Line

variable {io : ReplMode η} {m m' : Repl η} {c : Command} {t : UInt64} {fuel : Nat}

theorem setHalted_running (h : m.state.halted = .running) : m.setHalted .running = m := by
  cases m with
  | mk vm env history =>
    cases vm with
    | mk mem state deltas =>
      cases state
      cases h
      rfl

theorem debugResume_some (h : debugResume m = some m') :
    m' = m.setHalted .running ∧ ¬ m.state.halted.natural := by
  unfold debugResume at h
  cases hh : m.state.halted <;> rw [hh] at h <;> cases h <;>
    simp [HaltReason.natural, setHalted_running, hh]

theorem debugResume_resumable (h : m.state.halted.resumable) :
    debugResume m = some (m.setHalted .running) := by
  unfold debugResume
  rcases h with h | h | h
  · rw [h, setHalted_running h]
  · rw [h]
  · rw [h]

theorem debugResume_natural (h : m.state.halted.natural) : debugResume m = none := by
  unfold debugResume
  rcases h with h | h | h <;> rw [h]

theorem debugResume_running (h : m.state.halted = .running) : debugResume m = some m := by
  unfold debugResume
  rw [h]

/-- A refused resume keeps the prompt. -/
theorem command_refused (ht : c.RunsTo m t) (h : debugResume m = none) :
    command io fuel m c = some (.prompt m) := by
  cases c with
  | step n =>
    change (if n = 0 then _ else _) = _
    rw [if_neg ht.1, h]
  | «continue» =>
    change (match debugResume m with | none => _ | some u => _) = _
    rw [h]
  | _ => exact absurd ht id

/-- Any other line of this kind is a run. -/
theorem command_resumed (ht : c.RunsTo m t) (h : debugResume m = some m') :
    command io fuel m c = runFrom io fuel (m'.setTarget t) := by
  obtain ⟨rfl, -⟩ := debugResume_some h
  cases c with
  | step n =>
    obtain ⟨hn, rfl⟩ := ht
    change (if n = 0 then _ else _) = _
    rw [if_neg hn, h]
    rfl
  | «continue» =>
    obtain rfl : t = uint64Max := ht
    change (match debugResume m with | none => _ | some u => _) = _
    rw [h]
  | _ => exact absurd ht id

/-- What `back` does when the ring does not go back far enough, or there is nothing to go back. -/
theorem backTo_refused (io : ReplMode η) (m : Repl η) {n : Nat}
    (h : n = 0 ∨ n > m.env.2.historyIndex) : backTo io n m = m := by
  unfold backTo
  simp only
  by_cases h0 : n = 0
  · rw [if_pos h0]
  · rw [if_neg h0, if_pos (h.resolve_left h0)]

theorem firedSince_self (m : Repl η) : firedSince m m = [] := List.drop_length

theorem lastRunAfter_eq {n : Nat} (h : (firedSince m m').length = n + 1) (lastRun : Nat) :
    lastRunAfter lastRun m m' = n + 1 := by
  unfold lastRunAfter
  rw [if_neg (List.ne_nil_of_length_pos (by omega)), h]

/-- What a line can do: change the breakpoints or nothing, run the VM, or go back. -/
inductive LineEffect (io : ReplMode η) (fuel : Nat) (m : Repl η) (c : Command) : Reply η → Prop
  | kept {d : CmdDebug} : d.history = m.env.2.history →
      (∀ timeline, timelineAfter timeline m (m.setDebug d) c = timeline) →
        LineEffect io fuel m c (.prompt (m.setDebug d))
  | ran {t : UInt64} {reply : Reply η} : c.RunsTo m t →
      debugResume m = some (m.setHalted .running) →
      runFrom io fuel ((m.setHalted .running).setTarget t) = some reply →
        LineEffect io fuel m c reply
  | rewound {n : UInt64} : c = .back n → 1 ≤ n.toNat → n.toNat ≤ m.env.2.historyIndex →
      LineEffect io fuel m c (.prompt (backTo io n.toNat m))

/-- **What a line does.** -/
theorem command_cases {reply : Reply η} (h : command io fuel m c = some reply) :
    LineEffect io fuel m c reply := by
  have hkept : ∀ d : CmdDebug, d.history = m.env.2.history → (∀ n, c ≠ .back n) →
      LineEffect io fuel m c (.prompt (m.setDebug d)) := by
    intro d hd hc
    refine .kept hd fun timeline => ?_
    have hsince : firedSince m (m.setDebug d) = [] := firedSince_self m
    cases c with
    | back n => exact absurd rfl (hc n)
    | _ => exact (congrArg (timeline ++ ·) hsince).trans (List.append_nil _)
  have hruns : ∀ t, c.RunsTo m t → (∀ n, c ≠ .back n) → LineEffect io fuel m c reply := by
    intro t ht hc
    cases hres : debugResume m with
    | none =>
      rw [command_refused ht hres] at h
      cases h
      exact hkept m.env.2 rfl hc
    | some u =>
      rw [command_resumed ht hres] at h
      obtain ⟨rfl, -⟩ := debugResume_some hres
      exact .ran ht hres h
  cases c with
  | step n =>
    by_cases hn : n = 0
    · subst hn
      obtain rfl : .prompt m = reply := by simpa [command] using h
      exact hkept m.env.2 rfl fun _ => nofun
    · exact hruns _ ⟨hn, rfl⟩ fun _ => nofun
  | «continue» => exact hruns _ rfl fun _ => nofun
  | back n =>
    cases h
    by_cases hrefused : n.toNat = 0 ∨ n.toNat > m.env.2.historyIndex
    · rw [backTo_refused io m hrefused]
      refine .kept (d := m.env.2) rfl fun timeline => ?_
      rcases hrefused with h0 | hn
      · simp [timelineAfter, h0]
      · simp [timelineAfter, hn]
    · obtain ⟨hpos, hn⟩ := not_or.mp hrefused
      exact .rewound rfl (Nat.one_le_iff_ne_zero.mpr hpos) (Nat.le_of_not_lt hn)
  | breakpoint addr =>
    cases h
    exact hkept _ rfl fun _ => nofun
  | breakpointDelete addr =>
    cases h
    exact hkept _ rfl fun _ => nofun
  | save =>
    cases h
    exact hkept m.env.2 rfl fun _ => nofun

/-- The timeline after a run. -/
theorem timelineAfter_run (ht : c.RunsTo m t) (timeline : List (Moment η)) (m' : Repl η) :
    timelineAfter timeline m m' c = timeline ++ firedSince m m' := by
  cases c with
  | back n => exact absurd ht id
  | _ => rfl

/-- The fuel does not decide what a line leaves. -/
theorem command_unique {fuel' : Nat} {reply reply' : Reply η}
    (h : command io fuel m c = some reply) (h' : command io fuel' m c = some reply') :
    reply = reply' := by
  by_cases hruns : ∃ t, c.RunsTo m t
  · obtain ⟨t, ht⟩ := hruns
    cases hres : debugResume m with
    | none =>
      rw [command_refused ht hres] at h h'
      exact Option.some.inj (h.symm.trans h')
    | some u =>
      rw [command_resumed ht hres] at h h'
      exact StepLoop.exec_map_unique h h'
  · cases c with
    | step n =>
      obtain rfl : n = 0 := by
        by_contra hn
        exact hruns ⟨_, hn, rfl⟩
      simp only [command, if_pos] at h h'
      exact Option.some.inj (h.symm.trans h')
    | «continue» => exact absurd ⟨_, rfl⟩ hruns
    | _ => exact Option.some.inj (h.symm.trans h')

end Line

end RetroVM

import RetroVM.Engine.Alike

/-!
# Record and replay (`main.cpp`, `cmd_record` / `cmd_replay`; `trace.cpp`)

`cmd_record` answers `IN` from stdin and `RAND` from its generator, and appends a frame for every
answer; `cmd_replay` answers both from the frames, through a cursor, and checks cycle and opcode of
each. stdin and the generator are value streams here: the `n`-th `scanf` (0 at end of input) and
the `n`-th draw. A command runs with fuel; `none` is a run the fuel did not see the end of.

Results:
* `consult_record`: a recorded answer is appended as a frame and counted.
* `consult_replay`: a replayed answer is the frame under the cursor, if its cycle and opcode match.
* `cycle_replay_cursor`: what one turn of a replay does to the cursor.
-/

namespace RetroVM

/-- `struct TraceFrame`. -/
structure TraceFrame where
  cycle  : UInt64
  opcode : UInt8
  value  : UInt32
  deriving DecidableEq

/-- The frames of a trace, as `TraceReader` maps them. -/
abbrev Trace := List TraceFrame

/-- The pair a frame is checked by. -/
def TraceFrame.key (f : TraceFrame) : UInt64 × UInt8 := (f.cycle, f.opcode)

/-! ## Replay -/

/-- `consume`: the value of the frame under the cursor, and the cursor moved on, or the mismatch. -/
def consume (reader : Trace) (cycle : UInt64) (wantOp : UInt8) : Hooked Nat UInt32 := fun idx =>
  match reader[idx]? with
  | none => (.error ⟨cycle, wantOp, 0, 0, idx, true⟩, idx)
  | some f =>
    if f.cycle ≠ cycle ∨ f.opcode ≠ wantOp then
      (.error ⟨cycle, wantOp, f.cycle, f.opcode, idx, false⟩, idx)
    else (.ok f.value, idx + 1)

/-- The hooks of `cmd_replay`; the observer only prints. -/
def replayHooks (reader : Trace) : IOHooks Nat where
  inHook := some fun cycle => consume reader cycle Opcode.opIn.byte
  randHook := some fun cycle => consume reader cycle Opcode.opRand.byte
  onNondeterministic := some fun _ _ _ cursor => (.ok (), cursor)

/-- What is wired to the VM of `cmd_replay`. -/
def replayEnv (reader : Trace) : Env Nat := ⟨replayHooks reader, none, .computedGoto⟩

/-- What `cmd_replay` reports. -/
inductive ReplayOutcome where
  /-- The program exceeds `MEM_SIZE`. -/
  | tooLarge
  /-- A `TraceMismatch` was caught; `consumed` is the cursor. -/
  | diverged (div : TraceMismatch) (r : HaltReason) (vm : VM) (consumed : Nat)
  /-- The run ended with `count` frames unread. -/
  | unread (count : Nat) (r : HaltReason) (vm : VM)
  /-- `replay VERIFIED`. -/
  | verified (r : HaltReason) (vm : VM)

/-- The verdict of `cmd_replay` on how its run ended. -/
def replayVerdict (reader : Trace) (x : Exit Nat) : ReplayOutcome :=
  match x.stop with
  | .threw div =>
    .diverged div (if div.prematureEof then .traceEof else .diverged) x.machine.vm x.machine.env
  | .returned r =>
    let consumed := x.machine.env
    if consumed < reader.length then .unread (reader.length - consumed) r x.machine.vm
    else .verified r x.machine.vm

/-- `cmd_replay`. -/
def cmdReplay (bytes : List UInt8) (reader : Trace) (fuel : Nat) : Option ReplayOutcome :=
  match VM.boot bytes with
  | none => some .tooLarge
  | some vm =>
    (StepLoop.exec (turn (replayEnv reader)) fuel (.start vm 0)).map (replayVerdict reader)

/-- The exit code of `cmd_replay`. -/
def ReplayOutcome.exitCode : ReplayOutcome → Nat
  | .tooLarge => 1
  | .diverged .. => 3
  | .unread .. => 3
  | .verified r _ => if r = .normal then 0 else 2

/-! ## Record -/

/-- The closures of `cmd_record`: how much of either stream was read, and the writer's frames. -/
structure Recorder where
  ins    : Nat
  draws  : Nat
  frames : Trace

/-- The hooks of `cmd_record`. -/
def recordHooks (stdin rng : Nat → UInt32) : IOHooks Recorder where
  inHook := some fun _ w => (.ok (stdin w.ins), { w with ins := w.ins + 1 })
  randHook := some fun _ w => (.ok (rng w.draws), { w with draws := w.draws + 1 })
  onNondeterministic := some fun cycle op value w =>
    (.ok (), { w with frames := w.frames ++ [⟨cycle, op, value⟩] })

/-- What is wired to the VM of `cmd_record`. -/
def recordEnv (stdin rng : Nat → UInt32) : Env Recorder :=
  ⟨recordHooks stdin rng, none, .computedGoto⟩

/-- What `cmd_record` leaves. -/
inductive RecordOutcome where
  /-- The program exceeds `MEM_SIZE`. -/
  | tooLarge
  /-- The run halted, and the writer flushed `frames`. -/
  | halted (r : HaltReason) (vm : VM) (frames : Trace)
  /-- An exception left `main`; no hook of `cmd_record` throws one. -/
  | uncaught (e : TraceMismatch)

/-- What `cmd_record` does once its run is over. -/
def recordVerdict (x : Exit Recorder) : RecordOutcome :=
  match x.stop with
  | .threw e => .uncaught e
  | .returned r => .halted r x.machine.vm x.machine.env.frames

/-- `cmd_record`. -/
def cmdRecord (bytes : List UInt8) (stdin rng : Nat → UInt32) (fuel : Nat) :
    Option RecordOutcome :=
  match VM.boot bytes with
  | none => some .tooLarge
  | some vm =>
    (StepLoop.exec (turn (recordEnv stdin rng)) fuel (.start vm ⟨0, 0, []⟩)).map recordVerdict

/-- The exit code of `cmd_record`; an uncaught exception has none. -/
def RecordOutcome.exitCode : RecordOutcome → Option Nat
  | .tooLarge => some 1
  | .halted r _ _ => some (if r = .normal then 0 else 2)
  | .uncaught _ => none

/-- The frames `cmd_record` flushed, if its run halted. -/
def RecordOutcome.frames : RecordOutcome → Option Trace
  | .halted _ _ frames => some frames
  | _ => none

/-! ## The runs behind the commands -/

section Runs

variable {bytes : List UInt8} {vm0 : VM}

theorem cmdReplay_eq_some_iff (hb : VM.boot bytes = some vm0) {reader : Trace} {fuel : Nat}
    {out : ReplayOutcome} :
    cmdReplay bytes reader fuel = some out ↔
      ∃ y, StepLoop.after (Machine.cycle (replayEnv reader)) fuel (.start vm0 0) = .error y ∧
        replayVerdict reader y = out := by
  have hrun : (Machine.start vm0 0).state.halted = .running := (boot_running hb).1
  unfold cmdReplay
  simp only [hb, exec_turn_eq _ hrun, Option.map_eq_some_iff, StepLoop.exec_eq_some_iff]

theorem cmdRecord_eq_some_iff (hb : VM.boot bytes = some vm0) {stdin rng : Nat → UInt32}
    {fuel : Nat} {out : RecordOutcome} :
    cmdRecord bytes stdin rng fuel = some out ↔
      ∃ x, StepLoop.after (Machine.cycle (recordEnv stdin rng)) fuel
        (.start vm0 ⟨0, 0, []⟩) = .error x ∧ recordVerdict x = out := by
  have hrun : (Machine.start vm0 (⟨0, 0, []⟩ : Recorder)).state.halted = .running :=
    (boot_running hb).1
  unfold cmdRecord
  simp only [hb, exec_turn_eq _ hrun, Option.map_eq_some_iff, StepLoop.exec_eq_some_iff]

/-- The fuel does not decide what `cmd_replay` comes to. -/
theorem cmdReplay_unique {reader : Trace} {fuel fuel' : Nat} {out out' : ReplayOutcome}
    (h : cmdReplay bytes reader fuel = some out) (h' : cmdReplay bytes reader fuel' = some out') :
    out = out' := by
  unfold cmdReplay at h h'
  cases hb : VM.boot bytes with
  | none =>
    rw [hb] at h h'
    exact Option.some.inj (h.symm.trans h')
  | some vm =>
    rw [hb] at h h'
    exact StepLoop.exec_map_unique h h'

end Runs

theorem recordVerdict_eq_halted {x : Exit Recorder} {r : HaltReason} {vm : VM} {frames : Trace} :
    recordVerdict x = .halted r vm frames ↔
      x.stop = .returned r ∧ x.machine.vm = vm ∧ x.machine.env.frames = frames := by
  unfold recordVerdict
  cases x.stop <;> simp

theorem halted_of_frames {bytes : List UInt8} {stdin rng : Nat → UInt32} {fuel : Nat}
    {frames : Trace}
    (h : (cmdRecord bytes stdin rng fuel).bind RecordOutcome.frames = some frames) :
    ∃ r vm, cmdRecord bytes stdin rng fuel = some (.halted r vm frames) := by
  obtain ⟨out, hout, hf⟩ := Option.bind_eq_some_iff.mp h
  cases out with
  | halted r vm frames' =>
    cases hf
    exact ⟨r, vm, hout⟩
  | _ => cases hf

theorem replayVerdict_eq_verified {reader : Trace} {x : Exit Nat} {r : HaltReason} {vm : VM} :
    replayVerdict reader x = .verified r vm ↔
      x.stop = .returned r ∧ reader.length ≤ x.machine.env ∧ x.machine.vm = vm := by
  unfold replayVerdict
  cases x.stop with
  | threw e => simp
  | returned r' =>
    by_cases hc : x.machine.env < reader.length
    · simp [hc]
    · simp [hc]
      omega

/-! ## What the hooks answer -/

/-- The calls a query makes when its hook answers and an observer is attached. -/
def answeredCalls (q : Query) (cycle : UInt64) (v : UInt32) : List Call :=
  [.hook q.byte cycle, .observe cycle q.byte v]

/-- The value a recorded query gets. -/
def Recorder.answer (stdin rng : Nat → UInt32) (w : Recorder) : Query → UInt32
  | .input => stdin w.ins
  | .random => rng w.draws

/-- **A recorded answer becomes a frame.** -/
theorem consult_record (stdin rng : Nat → UInt32) (q : Query) (cycle : UInt64) (w : Recorder) :
    ∃ w', consult (recordHooks stdin rng) q cycle w =
        ⟨some (w.answer stdin rng q), none, w', answeredCalls q cycle (w.answer stdin rng q)⟩ ∧
      w'.frames = w.frames ++ [⟨cycle, q.byte, w.answer stdin rng q⟩] := by
  cases q <;> exact ⟨_, rfl, rfl⟩

/-- **A replayed answer is the frame under the cursor**, if cycle and opcode match; nothing else
moves the cursor. -/
theorem consult_replay (reader : Trace) (q : Query) (cycle : UInt64) (idx : Nat) :
    consult (replayHooks reader) q cycle idx =
      match reader[idx]? with
      | none => ⟨none, some ⟨cycle, q.byte, 0, 0, idx, true⟩, idx, [.hook q.byte cycle]⟩
      | some f =>
        if f.key = (cycle, q.byte) then
          ⟨some f.value, none, idx + 1, answeredCalls q cycle f.value⟩
        else
          ⟨none, some ⟨cycle, q.byte, f.cycle, f.opcode, idx, false⟩, idx,
            [.hook q.byte cycle]⟩ := by
  have hq : (replayHooks reader).query q = some fun cycle => consume reader cycle q.byte := by
    cases q <;> rfl
  unfold consult
  rw [hq]
  simp only [consume]
  cases reader[idx]? with
  | none => rfl
  | some f =>
    simp only
    by_cases hkey : f.key = (cycle, q.byte)
    · obtain ⟨hc, ho⟩ := Prod.mk.inj hkey
      rw [if_pos hkey, if_neg (by simp [hc, ho])]
      rfl
    · have hne : f.cycle ≠ cycle ∨ f.opcode ≠ q.byte := by
        by_contra h
        rw [not_or, not_not, not_not] at h
        exact hkey (Prod.ext h.1 h.2)
      rw [if_neg hkey, if_pos hne]

section Consult

variable {reader : Trace} {q : Query} {cycle : UInt64} {idx : Nat}

/-- The frame under the cursor is the one asked for. -/
theorem consult_replay_hit {f : TraceFrame} (hf : reader[idx]? = some f)
    (hkey : f.key = (cycle, q.byte)) :
    consult (replayHooks reader) q cycle idx =
      ⟨some f.value, none, idx + 1, answeredCalls q cycle f.value⟩ := by
  rw [consult_replay, hf]
  exact if_pos hkey

/-- The frame under the cursor is another one. -/
theorem consult_replay_miss {f : TraceFrame} (hf : reader[idx]? = some f)
    (hkey : f.key ≠ (cycle, q.byte)) :
    consult (replayHooks reader) q cycle idx =
      ⟨none, some ⟨cycle, q.byte, f.cycle, f.opcode, idx, false⟩, idx, [.hook q.byte cycle]⟩ := by
  rw [consult_replay, hf]
  exact if_neg hkey

/-- There is no frame under the cursor. -/
theorem consult_replay_end (hf : reader[idx]? = none) :
    consult (replayHooks reader) q cycle idx =
      ⟨none, some ⟨cycle, q.byte, 0, 0, idx, true⟩, idx, [.hook q.byte cycle]⟩ := by
  rw [consult_replay, hf]

end Consult

/-! ## The cursor -/

/-- **What one turn of a replay does to the cursor**: nothing, or it takes the frame under it, in
that frame's cycle, and goes on. -/
theorem cycle_replay_cursor (reader : Trace) {m : Machine Nat} (hi : m.state.snapInterval = 0) :
    (landed (m.cycle (replayEnv reader))).env = m.env ∨
      ∃ f m', reader[m.env]? = some f ∧ f.cycle = m.state.cycleCount + 1 ∧
        m.cycle (replayEnv reader) = .ok m' ∧ m'.env = m.env + 1 := by
  rw [cycle_off _ hi]
  by_cases hask : ∃ q dst, decode m.fetched = some (.ask q dst)
  · obtain ⟨q, dst, hd⟩ := hask
    rw [retire_ask hd, landed_receive, received_env]
    change (consult (replayHooks reader) q (m.state.cycleCount + 1) m.env).env = m.env ∨
      ∃ f m', _ ∧ _ ∧ Machine.receive _ dst
        (consult (replayHooks reader) q (m.state.cycleCount + 1) m.env) = .ok m' ∧ _
    cases hf : reader[m.env]? with
    | none =>
      rw [consult_replay_end hf]
      exact .inl rfl
    | some f =>
      by_cases hkey : f.key = (m.state.cycleCount + 1, q.byte)
      · rw [consult_replay_hit hf hkey]
        exact .inr ⟨f, _, rfl, congrArg Prod.fst hkey, rfl, rfl⟩
      · rw [consult_replay_miss hf hkey]
        exact .inl rfl
  · exact .inl (retire_quiet (replayEnv reader) m.advance fun q dst hd => hask ⟨q, dst, hd⟩).1

end RetroVM

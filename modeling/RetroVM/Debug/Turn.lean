import RetroVM.Debug.Repl

/-!
# One turn of a debugger run (`main.cpp`, `install_debug_sink`)

The sink fires on every fetch, after pc and cycle moved on and before the instruction is dispatched.
It pushes a snapshot, and it may ask for a soft halt; then the fetched instruction is not
dispatched.

Results:
* `debug_tick`, `debug_tick_halt`: what the fetch of a turn does, without and with a soft halt.
* `retire_exit`: how an instruction ends a run.
* `retire_debug`: instructions leave the debugger alone.
* `debug_firings`: a turn fires once, however it ends.
* `runFrom_last`: the last turn of a run.
-/

namespace RetroVM

variable {η : Type}

/-! ## The sink -/

/-- The soft halt the sink asks for on a fetch from `pc` in `cycle`. -/
def CmdDebug.pause (d : CmdDebug) (cycle : UInt64) (pc : UInt32) : Option HaltReason :=
  if d.targetCycle ≠ uint64Max ∧ cycle ≥ d.targetCycle then some .step
  else if pc ∈ d.breakpoints then some .breakpoint
  else none

/-- The step boundary, switched off once it is hit. -/
def CmdDebug.settle (d : CmdDebug) (cycle : UInt64) : CmdDebug :=
  if d.targetCycle ≠ uint64Max ∧ cycle ≥ d.targetCycle then { d with targetCycle := uint64Max }
  else d

/-- The snapshot the next fetch of `m` fires. -/
def Machine.firing (m : Repl η) : Moment η := ⟨m.advance.vm.snapshot, m.advance.vm.drained, m.env⟩

/-- The debugger after it. -/
def Machine.pushed (io : ReplMode η) (m : Repl η) : CmdDebug :=
  (m.env.2.settle (m.state.cycleCount + 1)).push (m.firing.entry io)

theorem debugSink_eq (io : ReplMode η) (m : Repl η) (vm : VM) :
    debugSink io m.advance.vm.snapshot vm m.env =
      (m.env.2.pause (m.state.cycleCount + 1) m.state.pc, (m.env.1, m.pushed io)) := by
  have hpc : m.advance.vm.snapshot.pc - 4 = m.state.pc := UInt32.add_sub_cancel _ _
  unfold debugSink CmdDebug.pause Machine.pushed CmdDebug.settle
  simp only [hpc]
  by_cases ht : m.env.2.targetCycle ≠ uint64Max ∧ m.state.cycleCount + 1 ≥ m.env.2.targetCycle
  · have ht' : m.env.2.targetCycle ≠ uint64Max ∧
        m.advance.vm.snapshot.cycleCount ≥ m.env.2.targetCycle := ht
    rw [if_pos ht', if_pos ht, if_pos ht]
    rfl
  · have ht' : ¬ (m.env.2.targetCycle ≠ uint64Max ∧
        m.advance.vm.snapshot.cycleCount ≥ m.env.2.targetCycle) := ht
    rw [if_neg ht', if_neg ht, if_neg ht]
    by_cases hb : m.state.pc ∈ m.env.2.breakpoints
    · rw [if_pos hb, if_pos hb]
      rfl
    · rw [if_neg hb, if_neg hb]
      rfl

theorem pause_ne_running {d : CmdDebug} {cycle : UInt64} {pc : UInt32} {r : HaltReason}
    (h : d.pause cycle pc = some r) : r = .step ∨ r = .breakpoint := by
  unfold CmdDebug.pause at h
  split at h
  · exact .inl (Option.some.inj h).symm
  · split at h
    · exact .inr (Option.some.inj h).symm
    · cases h

/-- A machine a debugger run goes on from: running, the sink firing on every fetch. -/
structure Stepping (m : Repl η) : Prop where
  running  : m.state.halted = .running
  interval : m.state.snapInterval = 1
  timer    : m.state.snapTimer = 1

section Tick

variable (io : ReplMode η) {m : Repl η}

/-- The fetch of a turn that goes on to dispatch. -/
theorem debug_tick (h : Stepping m)
    (hp : m.env.2.pause (m.state.cycleCount + 1) m.state.pc = none) :
    m.advance.snapTick (debugEnv io) = .ok {
      vm := { m.advance.vm with deltas := [] }
      env := (m.env.1, m.pushed io)
      history := m.history ++ [.fire m.firing] } := by
  have hsink := debugSink_eq io m m.advance.vm.drained
  rw [hp] at hsink
  have htick := snapTick_every (E := debugEnv io) (m := m.advance) rfl h.interval h.timer
    h.running (congrArg Prod.fst hsink)
  rw [htick]
  exact congrArg (fun e => Except.ok (⟨_, e, _⟩ : Repl η)) (congrArg Prod.snd hsink)

/-- The fetch of a turn that ends in a soft halt. -/
theorem debug_tick_halt (h : Stepping m) {r : HaltReason}
    (hp : m.env.2.pause (m.state.cycleCount + 1) m.state.pc = some r) :
    m.advance.snapTick (debugEnv io) = .error ⟨{
      vm := { m.advance.vm with state := { m.advance.state with halted := r }, deltas := [] }
      env := (m.env.1, m.pushed io)
      history := m.history ++ [.fire m.firing] }, .returned r⟩ := by
  have hsink := debugSink_eq io m m.advance.vm.drained
  rw [hp] at hsink
  have hne : r ≠ .running := by
    rcases pause_ne_running hp with rfl | rfl <;> decide
  have htick := snapTick_every_halt (E := debugEnv io) (m := m.advance) rfl h.interval h.timer
    hne (congrArg Prod.fst hsink)
  rw [htick]
  exact congrArg (fun e => Except.error (⟨(⟨_, e, _⟩ : Repl η), .returned r⟩ : Exit _))
    (congrArg Prod.snd hsink)

/-- A turn that goes on to dispatch. -/
theorem debug_cycle (h : Stepping m)
    (hp : m.env.2.pause (m.state.cycleCount + 1) m.state.pc = none) :
    m.cycle (debugEnv io) = Machine.retire (debugEnv io) m.fetched {
      vm := { m.advance.vm with deltas := [] }
      env := (m.env.1, m.pushed io)
      history := m.history ++ [.fire m.firing] } := by
  unfold Machine.cycle
  rw [debug_tick io h hp]

/-- A turn that ends in a soft halt. -/
theorem debug_cycle_halt (h : Stepping m) {r : HaltReason}
    (hp : m.env.2.pause (m.state.cycleCount + 1) m.state.pc = some r) :
    m.cycle (debugEnv io) = .error ⟨{
      vm := { m.advance.vm with state := { m.advance.state with halted := r }, deltas := [] }
      env := (m.env.1, m.pushed io)
      history := m.history ++ [.fire m.firing] }, .returned r⟩ := by
  unfold Machine.cycle
  rw [debug_tick_halt io h hp]

/-- A turn that does not end the run leaves a machine the run goes on from. -/
theorem Stepping.next {io : ReplMode η} {m' : Repl η} (h : Stepping m)
    (hc : m.cycle (debugEnv io) = .ok m') : Stepping m' := by
  have := cycle_every (debugEnv io) h.interval h.timer
  rw [hc] at this
  exact ⟨cycle_running h.running hc, this.1, this.2⟩

end Tick

/-! ## Instructions -/

theorem effect_stop {i : Instr} {mem : Memory} {c c' : Cpu} {r : HaltReason}
    (h : i.effect mem c = .stop c' r) : r.natural := by
  cases i with
  | halt =>
    cases h
    exact .inl rfl
  | div dst src =>
    simp only [Instr.effect] at h
    split at h
    · cases h
      exact .inr (.inl rfl)
    · cases h
  | _ => cases h

/-- **How an instruction ends a run**: with a natural halt, having written nothing, or with what a
hook threw. -/
theorem retire_exit {ε : Type} {E : Env ε} {instr : UInt32} {m : Machine ε} {x : Exit ε}
    (h : m.retire E instr = .error x) :
    (∃ e, x.stop = .threw e) ∨
      ∃ r, x.stop = .returned r ∧ x.machine.state.halted = r ∧ r.natural ∧
        x.machine.vm.deltas = m.vm.deltas ∧ x.machine.mem = m.mem := by
  unfold Machine.retire at h
  cases hd : decode instr with
  | none =>
    rw [hd] at h
    cases h
    exact .inr ⟨_, rfl, rfl, .inr (.inr rfl), rfl, rfl⟩
  | some i =>
    rw [hd] at h
    simp only at h
    cases he : i.effect m.mem m.state.cpu with
    | next c =>
      rw [he] at h
      cases h
    | write addr v =>
      rw [he] at h
      cases h
    | ask q dst =>
      rw [he] at h
      change Machine.receive _ _ (consult E.hooks q _ _) = _ at h
      unfold Machine.receive at h
      split at h
      · cases h
      · cases h
        exact .inl ⟨_, rfl⟩
    | stop c r =>
      rw [he] at h
      cases h
      exact .inr ⟨_, rfl, rfl, effect_stop he, rfl, rfl⟩

/-- **Instructions leave the debugger alone.** -/
theorem retire_debug (io : ReplMode η) (instr : UInt32) (m : Repl η) :
    (landed (m.retire (debugEnv io) instr)).env.2 = m.env.2 :=
  retire_beside io.hooks _ _ instr m

/-! ## Counting turns -/

section Firings

variable (io : ReplMode η) {m m' : Repl η}

/-- A turn fires once, however it ends. -/
theorem debug_firings (h : Stepping m) :
    firings (landed (m.cycle (debugEnv io))).history = firings m.history ++ [m.firing] :=
  cycle_firings rfl h.interval h.timer

/-- Any number of turns that do not end a run. -/
theorem after_firings (h : Stepping m) {n : Nat}
    (hn : StepLoop.after (Machine.cycle (debugEnv io)) n m = .ok m') :
    Stepping m' ∧ (firings m'.history).length = (firings m.history).length + n := by
  constructor
  · exact StepLoop.after_invariant (fun _ _ hs hc => hs.next hc) h hn
  · exact after_firings_length rfl h.interval h.timer hn

/-- **The last turn of a run that comes back to a prompt.** -/
theorem runFrom_last (h : Stepping m) {fuel : Nat} (hr : runFrom io fuel m = some (.prompt m')) :
    ∃ n u x r, StepLoop.after (Machine.cycle (debugEnv io)) n m = .ok u ∧ Stepping u ∧
      u.cycle (debugEnv io) = .error x ∧ x.stop = .returned r ∧ x.machine = m' := by
  obtain ⟨x, hx, hreply⟩ := Option.map_eq_some_iff.mp hr
  rw [exec_turn_eq _ h.running, StepLoop.exec_eq_some_iff] at hx
  obtain ⟨n, u, -, hu, hlast⟩ := StepLoop.after_error_last hx
  cases hstop : x.stop with
  | threw e =>
    rw [hstop] at hreply
    cases hreply
  | returned r =>
    rw [hstop] at hreply
    cases hreply
    exact ⟨n, u, x, r, hu, (after_firings io h hu).1, hlast, hstop, rfl⟩

end Firings

end RetroVM

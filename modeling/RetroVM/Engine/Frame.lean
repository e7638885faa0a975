import RetroVM.Engine.Cycle

/-!
# What a cycle can change

One inversion lemma for the snapshot plumbing (`snapTick_cases`) and one frame lemma for the rest
of the cycle (`retire_frame`): whatever an instruction does, traps and throwing hooks included, it
leaves the cycle count, the stack pointer, the snapshot interval and timer alone, and fires no
sink.
-/

namespace RetroVM

variable {ε : Type}

/-- The machine a turn leaves behind, whether the loop goes on or not. -/
def landed : Except (Exit ε) (Machine ε) → Machine ε
  | .ok m => m
  | .error x => x.machine

@[simp] theorem landed_ok (m : Machine ε) : landed (.ok m) = m := rfl

@[simp] theorem landed_error (x : Exit ε) : landed (.error x) = x.machine := rfl

/-! ## Fields -/

section Fields

variable (m : Machine ε) (E : Env ε) (s : VMState) (r : HaltReason) (instr : UInt32)

@[simp] theorem setState_state : (m.setState s).vm.state = s := rfl
@[simp] theorem setState_mem : (m.setState s).vm.mem = m.vm.mem := rfl
@[simp] theorem setState_deltas : (m.setState s).vm.deltas = m.vm.deltas := rfl
@[simp] theorem setState_env : (m.setState s).env = m.env := rfl
@[simp] theorem setState_history : (m.setState s).history = m.history := rfl

@[simp] theorem setHalted_state :
    (m.setHalted r).vm.state = { m.vm.state with halted := r } := rfl
@[simp] theorem setHalted_mem : (m.setHalted r).vm.mem = m.vm.mem := rfl
@[simp] theorem setHalted_deltas : (m.setHalted r).vm.deltas = m.vm.deltas := rfl
@[simp] theorem setHalted_env : (m.setHalted r).env = m.env := rfl
@[simp] theorem setHalted_history : (m.setHalted r).history = m.history := rfl

@[simp] theorem advance_state : m.advance.vm.state =
    { m.vm.state with pc := m.vm.state.pc + 4, cycleCount := m.vm.state.cycleCount + 1 } := rfl
@[simp] theorem advance_mem : m.advance.vm.mem = m.vm.mem := rfl
@[simp] theorem advance_deltas : m.advance.vm.deltas = m.vm.deltas := rfl
@[simp] theorem advance_env : m.advance.env = m.env := rfl
@[simp] theorem advance_history : m.advance.history = m.history := rfl

@[simp] theorem tick_state :
    m.tick.vm.state = { m.vm.state with snapTimer := m.vm.state.snapTimer - 1 } := rfl
@[simp] theorem tick_mem : m.tick.vm.mem = m.vm.mem := rfl
@[simp] theorem tick_deltas : m.tick.vm.deltas = m.vm.deltas := rfl
@[simp] theorem tick_env : m.tick.env = m.env := rfl
@[simp] theorem tick_history : m.tick.history = m.history := rfl

@[simp] theorem dispatched_vm : (m.dispatched instr).vm = m.vm := rfl
@[simp] theorem dispatched_env : (m.dispatched instr).env = m.env := rfl
@[simp] theorem dispatched_history : (m.dispatched instr).history =
    m.history ++ [.call (.dispatch m.state.cycleCount (m.state.pc - 4) instr)] := rfl

end Fields

/-! ## Firing -/

/-- What a firing does: the log is drained, the timer reloaded, `halted` is what the sink asked
for, the closures are as the sink left them, and the call is on record. -/
theorem fired_of_sink {E : Env ε} {sink : SnapshotSink ε} (h : E.snapSink = some sink)
    (m : Machine ε) :
    m.fired E =
      let drained := { m.vm with deltas := [] }
      let answer := sink m.vm.snapshot drained m.env
      { vm := drained.setState { m.state with
          halted := answer.1.getD m.state.halted
          snapTimer := m.state.snapInterval }
        env := answer.2
        history := m.history ++ [.fire ⟨m.vm.snapshot, drained, m.env⟩] } := by
  unfold Machine.fired Machine.makeSnapshot
  rw [h]
  simp only [VM.takeSnapshot]
  cases (sink m.vm.snapshot { m.vm with deltas := [] } m.env).1 <;> rfl

/-- Without a sink a firing only drains the log. -/
theorem fired_of_none {E : Env ε} (h : E.snapSink = none) (m : Machine ε) :
    m.fired E = { m with vm := { m.vm with
      state := { m.state with snapTimer := m.state.snapInterval }
      deltas := [] } } := by
  unfold Machine.fired Machine.makeSnapshot
  rw [h]
  rfl

/-- Whatever the sink does, a firing changes no register, counter or memory. -/
theorem fired_frame (E : Env ε) (m : Machine ε) :
    (m.fired E).state =
        { m.state with halted := (m.fired E).state.halted, snapTimer := m.state.snapInterval } ∧
      (m.fired E).mem = m.mem ∧ (m.fired E).vm.deltas = [] ∧
      calls (m.fired E).history = calls m.history := by
  cases h : E.snapSink with
  | none =>
    rw [fired_of_none h]
    exact ⟨rfl, rfl, rfl, rfl⟩
  | some sink =>
    rw [fired_of_sink h]
    refine ⟨rfl, rfl, rfl, ?_⟩
    simp

/-- **What the snapshot plumbing can do**: nothing with snapshots off; count down; fire and go on;
or fire and leave with the halt the sink requested. -/
theorem snapTick_cases (E : Env ε) (m : Machine ε) :
    (m.state.snapInterval = 0 ∧ m.snapTick E = .ok m) ∨
    (m.state.snapInterval ≠ 0 ∧ m.state.snapTimer ≠ 1 ∧ m.snapTick E = .ok m.tick) ∨
    (m.state.snapInterval ≠ 0 ∧ m.state.snapTimer = 1 ∧
      (m.tick.fired E).state.halted = .running ∧ m.snapTick E = .ok (m.tick.fired E)) ∨
    (m.state.snapInterval ≠ 0 ∧ m.state.snapTimer = 1 ∧
      (m.tick.fired E).state.halted ≠ .running ∧
      m.snapTick E = .error ⟨m.tick.fired E, .returned (m.tick.fired E).state.halted⟩) := by
  have timer : m.tick.state.snapTimer = 0 ↔ m.state.snapTimer = 1 := by
    change m.state.snapTimer - 1 = 0 ↔ _
    rw [UInt32.sub_eq_iff_eq_add, UInt32.zero_add]
  unfold Machine.snapTick
  by_cases hi : m.state.snapInterval = 0
  · exact .inl ⟨hi, by rw [if_neg (by simp [hi])]⟩
  have hpos : m.state.snapInterval > 0 := UInt32.pos_iff_ne_zero.mpr hi
  rw [if_pos hpos]
  by_cases ht : m.state.snapTimer = 1
  · rw [if_pos (timer.mpr ht)]
    by_cases hh : (m.tick.fired E).state.halted = .running
    · exact .inr (.inr (.inl ⟨hi, ht, hh, by rw [if_neg (not_not_intro hh)]⟩))
    · exact .inr (.inr (.inr ⟨hi, ht, hh, by rw [if_pos hh]⟩))
  · exact .inr (.inl ⟨hi, ht, by rw [if_neg (fun h => ht (timer.mp h))]⟩)

/-! ## Firing every cycle -/

/-- The VM a sink sees on a tick: the timer counted down, the log drained. -/
def VM.drained (vm : VM) : VM :=
  { vm with state := { vm.state with snapTimer := vm.state.snapTimer - 1 }, deltas := [] }

section EveryCycle

variable {E : Env ε} {sink : SnapshotSink ε} {m : Machine ε}

/-- With the interval at 1 the sink is called on every tick; one that requests nothing leaves the
VM as it was, its log drained. -/
theorem snapTick_every (hs : E.snapSink = some sink) (hi : m.state.snapInterval = 1)
    (ht : m.state.snapTimer = 1) (hr : m.state.halted = .running)
    (hq : (sink m.vm.snapshot m.vm.drained m.env).1 = none) :
    m.snapTick E = .ok {
      vm := { m.vm with deltas := [] }
      env := (sink m.vm.snapshot m.vm.drained m.env).2
      history := m.history ++ [.fire ⟨m.vm.snapshot, m.vm.drained, m.env⟩] } := by
  have hfired : m.tick.fired E = {
      vm := { m.vm with deltas := [] }
      env := (sink m.vm.snapshot m.vm.drained m.env).2
      history := m.history ++ [.fire ⟨m.vm.snapshot, m.vm.drained, m.env⟩] } := by
    have hstate : { m.state with
        halted := (sink m.vm.snapshot m.vm.drained m.env).1.getD m.state.halted
        snapTimer := m.state.snapInterval } = m.state := by
      rw [hq, hi, ← ht]
      rfl
    rw [fired_of_sink hs]
    exact congrArg (fun s => (⟨⟨m.mem, s, []⟩, _, _⟩ : Machine ε)) hstate
  rcases snapTick_cases E m with ⟨h0, -⟩ | ⟨-, h1, -⟩ | ⟨-, -, -, hx⟩ | ⟨-, -, hh, -⟩
  · rw [hi] at h0
    cases h0
  · exact absurd ht h1
  · rw [hx, hfired]
  · rw [hfired] at hh
    exact absurd hr hh

/-- One that requests a halt leaves the loop with it. -/
theorem snapTick_every_halt (hs : E.snapSink = some sink) (hi : m.state.snapInterval = 1)
    (ht : m.state.snapTimer = 1) {r : HaltReason} (hne : r ≠ .running)
    (hq : (sink m.vm.snapshot m.vm.drained m.env).1 = some r) :
    m.snapTick E = .error ⟨{
      vm := { m.vm with state := { m.state with halted := r }, deltas := [] }
      env := (sink m.vm.snapshot m.vm.drained m.env).2
      history := m.history ++ [.fire ⟨m.vm.snapshot, m.vm.drained, m.env⟩] }, .returned r⟩ := by
  have hfired : m.tick.fired E = {
      vm := { m.vm with state := { m.state with halted := r }, deltas := [] }
      env := (sink m.vm.snapshot m.vm.drained m.env).2
      history := m.history ++ [.fire ⟨m.vm.snapshot, m.vm.drained, m.env⟩] } := by
    have hstate : { m.state with
        halted := (sink m.vm.snapshot m.vm.drained m.env).1.getD m.state.halted
        snapTimer := m.state.snapInterval } = { m.state with halted := r } := by
      rw [hq, hi, ← ht]
      rfl
    rw [fired_of_sink hs]
    exact congrArg (fun s => (⟨⟨m.mem, s, []⟩, _, _⟩ : Machine ε)) hstate
  rcases snapTick_cases E m with ⟨h0, -⟩ | ⟨-, h1, -⟩ | ⟨-, -, hh, -⟩ | ⟨-, -, -, hx⟩
  · rw [hi] at h0
    cases h0
  · exact absurd ht h1
  · rw [hfired] at hh
    exact absurd hh hne
  · rw [hx, hfired]

end EveryCycle

/-! ## Everything else in a cycle -/

/-- The fields no instruction touches. -/
structure SameClock (m m' : Machine ε) : Prop where
  cycleCount   : m'.state.cycleCount = m.state.cycleCount
  sp           : m'.state.sp = m.state.sp
  snapInterval : m'.state.snapInterval = m.state.snapInterval
  snapTimer    : m'.state.snapTimer = m.state.snapTimer
  firings      : firings m'.history = firings m.history

@[simp] theorem landed_receive (m : Machine ε) (dst : Fin 8) (c : Consulted ε) :
    landed (m.receive dst c) = m.received dst c := by
  unfold Machine.receive
  cases c.thrown <;> rfl

/-- An answer reaches one register. -/
theorem received_vm (m : Machine ε) (dst : Fin 8) (c : Consulted ε) :
    (m.received dst c).vm = { m.vm with
      state := { m.state with regs := (m.received dst c).state.regs } } := by
  unfold Machine.received
  cases c.value <;> rfl

@[simp] theorem received_mem (m : Machine ε) (dst : Fin 8) (c : Consulted ε) :
    (m.received dst c).vm.mem = m.vm.mem := by
  rw [received_vm]

@[simp] theorem received_deltas (m : Machine ε) (dst : Fin 8) (c : Consulted ε) :
    (m.received dst c).vm.deltas = m.vm.deltas := by
  rw [received_vm]

theorem received_history (m : Machine ε) (dst : Fin 8) (c : Consulted ε) :
    (m.received dst c).history = m.history ++ c.calls.map .call := by
  unfold Machine.received
  cases c.value <;> rfl

theorem received_env (m : Machine ε) (dst : Fin 8) (c : Consulted ε) :
    (m.received dst c).env = c.env := by
  unfold Machine.received
  cases c.value <;> rfl

/-- The registers once the hooks were asked. -/
theorem received_cpu (m : Machine ε) (dst : Fin 8) (c : Consulted ε) :
    (m.received dst c).state.cpu =
      c.value.elim m.state.cpu fun v =>
        { m.state.cpu with regs := assign m.state.cpu.regs dst v } := by
  unfold Machine.received
  cases c.value <;> rfl

theorem received_halted (m : Machine ε) (dst : Fin 8) (c : Consulted ε) :
    (m.received dst c).state.halted = m.state.halted :=
  congrArg (·.state.halted) (received_vm m dst c)

theorem received_frame (m : Machine ε) (dst : Fin 8) (c : Consulted ε) :
    SameClock m (m.received dst c) := by
  have hv := received_vm m dst c
  refine ⟨?_, ?_, ?_, ?_, ?_⟩
  · exact congrArg (·.state.cycleCount) hv
  · exact congrArg (·.state.sp) hv
  · exact congrArg (·.state.snapInterval) hv
  · exact congrArg (·.state.snapTimer) hv
  · simp [received_history]

/-- **An instruction leaves the clock alone**, whether it goes on, traps, halts or throws. -/
theorem retire_frame (E : Env ε) (instr : UInt32) (m : Machine ε) :
    SameClock m (landed (m.retire E instr)) := by
  unfold Machine.retire
  cases decode instr with
  | none => exact ⟨rfl, rfl, rfl, rfl, rfl⟩
  | some i =>
    have logged : firings (m.dispatched instr).history = firings m.history := by simp
    show SameClock m (landed ((m.dispatched instr).apply E (i.effect m.mem m.state.cpu)))
    cases i.effect m.mem m.state.cpu with
    | next c => exact ⟨rfl, rfl, rfl, rfl, logged⟩
    | write addr v => exact ⟨rfl, rfl, rfl, rfl, logged⟩
    | ask q dst =>
      have r := received_frame (m.dispatched instr) dst
        (consult E.hooks q m.state.cycleCount m.env)
      rw [← landed_receive] at r
      exact ⟨r.cycleCount, r.sp, r.snapInterval, r.snapTimer, r.firings.trans logged⟩
    | stop c r => exact ⟨rfl, rfl, rfl, rfl, logged⟩

/-! ## Asking and not asking -/

theorem ask_of_effect {i : Instr} {mem : Memory} {c : Cpu} {q : Query} {dst : Fin 8}
    (h : i.effect mem c = .ask q dst) : i = .ask q dst := by
  cases i with
  | ask q' dst' =>
    cases h
    rfl
  | div dst src =>
    simp only [Instr.effect] at h
    split at h <;> cases h
  | _ => cases h

/-- An `IN` or `RAND` receives what the hooks answer. -/
theorem retire_ask {E : Env ε} {instr : UInt32} {m : Machine ε} {q : Query} {dst : Fin 8}
    (h : decode instr = some (.ask q dst)) :
    m.retire E instr =
      (m.dispatched instr).receive dst (consult E.hooks q m.state.cycleCount m.env) := by
  unfold Machine.retire
  rw [h]
  rfl

/-- **No other word reaches the closures**: their state stays, nothing is thrown, and the only call
is the entry into the handler, if the word has one. -/
theorem retire_quiet (E : Env ε) {instr : UInt32} (m : Machine ε)
    (h : ∀ q dst, decode instr ≠ some (.ask q dst)) :
    (landed (m.retire E instr)).env = m.env ∧
      (calls (landed (m.retire E instr)).history = calls m.history ∨
        calls (landed (m.retire E instr)).history =
          calls m.history ++ [.dispatch m.state.cycleCount (m.state.pc - 4) instr]) ∧
      ∀ x, m.retire E instr = .error x → ∃ r, x.stop = .returned r := by
  unfold Machine.retire
  cases hd : decode instr with
  | none =>
    refine ⟨rfl, .inl rfl, fun x hx => ?_⟩
    cases hx
    exact ⟨_, rfl⟩
  | some i =>
    have hlog : calls (m.dispatched instr).history =
        calls m.history ++ [.dispatch m.state.cycleCount (m.state.pc - 4) instr] := by
      simp
    simp only
    cases he : i.effect m.mem m.state.cpu with
    | next c => exact ⟨rfl, .inr hlog, fun x hx => by cases hx⟩
    | write addr v => exact ⟨rfl, .inr hlog, fun x hx => by cases hx⟩
    | ask q dst => exact absurd (hd.trans (congrArg some (ask_of_effect he))) (h q dst)
    | stop c r =>
      refine ⟨rfl, .inr hlog, fun x hx => ?_⟩
      cases hx
      exact ⟨_, rfl⟩

/-- With snapshots off the plumbing does nothing. -/
theorem snapTick_off (E : Env ε) {m : Machine ε} (h : m.state.snapInterval = 0) :
    m.advance.snapTick E = .ok m.advance := by
  rcases snapTick_cases E m.advance with ⟨-, ht⟩ | ⟨hi, -⟩ | ⟨hi, -⟩ | ⟨hi, -⟩
  · exact ht
  · exact absurd h hi
  · exact absurd h hi
  · exact absurd h hi

/-- With snapshots off a cycle is the fetch and the instruction. -/
theorem cycle_off (E : Env ε) {m : Machine ε} (h : m.state.snapInterval = 0) :
    m.cycle E = m.advance.retire E m.fetched := by
  unfold Machine.cycle
  rw [snapTick_off E h]

/-- An instruction that only goes on goes on with the registers it computed. -/
theorem cycle_next (E : Env ε) {m : Machine ε} (h : m.state.snapInterval = 0) {i : Instr} {c : Cpu}
    (hd : decode m.fetched = some i) (he : i.effect m.mem m.advance.state.cpu = .next c) :
    m.cycle E =
      .ok ((m.advance.dispatched m.fetched).setState (m.advance.state.setCpu c)) := by
  rw [cycle_off E h]
  unfold Machine.retire
  rw [hd]
  change (m.advance.dispatched m.fetched).apply E (i.effect m.mem m.advance.state.cpu) = _
  rw [he]
  rfl

/-- One that stops leaves with its reason. -/
theorem cycle_stop (E : Env ε) {m : Machine ε} (h : m.state.snapInterval = 0) {i : Instr} {c : Cpu}
    {r : HaltReason} (hd : decode m.fetched = some i)
    (he : i.effect m.mem m.advance.state.cpu = .stop c r) :
    m.cycle E =
      .error ⟨((m.advance.dispatched m.fetched).setState (m.advance.state.setCpu c)).setHalted r,
        .returned r⟩ := by
  rw [cycle_off E h]
  unfold Machine.retire
  rw [hd]
  change (m.advance.dispatched m.fetched).apply E (i.effect m.mem m.advance.state.cpu) = _
  rw [he]
  rfl

/-- **The frame of a cycle**: it counts one, and leaves sp and the snapshot interval alone. -/
theorem cycle_frame (E : Env ε) (m : Machine ε) :
    (landed (m.cycle E)).state.cycleCount = m.state.cycleCount + 1 ∧
      (landed (m.cycle E)).state.sp = m.state.sp ∧
      (landed (m.cycle E)).state.snapInterval = m.state.snapInterval := by
  have hretire := fun m' => retire_frame E m.fetched m'
  have hfired := (fired_frame E m.advance.tick).1
  have fcycle : (m.advance.tick.fired E).state.cycleCount = m.state.cycleCount + 1 := by
    rw [hfired]
    rfl
  have fsp : (m.advance.tick.fired E).state.sp = m.state.sp := by
    rw [hfired]
    rfl
  have finterval : (m.advance.tick.fired E).state.snapInterval = m.state.snapInterval := by
    rw [hfired]
    rfl
  unfold Machine.cycle
  rcases snapTick_cases E m.advance with ⟨-, ht⟩ | ⟨-, -, ht⟩ | ⟨-, -, -, ht⟩ | ⟨-, -, -, ht⟩
  · rw [ht]
    exact ⟨(hretire _).cycleCount, (hretire _).sp, (hretire _).snapInterval⟩
  · rw [ht]
    exact ⟨(hretire _).cycleCount, (hretire _).sp, (hretire _).snapInterval⟩
  · rw [ht]
    exact ⟨(hretire _).cycleCount.trans fcycle, (hretire _).sp.trans fsp,
      (hretire _).snapInterval.trans finterval⟩
  · rw [ht]
    exact ⟨fcycle, fsp, finterval⟩

/-- A machine that fires every cycle goes on to. -/
theorem cycle_every (E : Env ε) {m : Machine ε} (hi : m.state.snapInterval = 1)
    (ht : m.state.snapTimer = 1) :
    (landed (m.cycle E)).state.snapInterval = 1 ∧ (landed (m.cycle E)).state.snapTimer = 1 := by
  refine ⟨(cycle_frame E m).2.2.trans hi, ?_⟩
  have hfired : (m.advance.tick.fired E).state.snapTimer = 1 := by
    rw [(fired_frame E m.advance.tick).1]
    exact hi
  unfold Machine.cycle
  rcases snapTick_cases E m.advance with ⟨h0, -⟩ | ⟨-, h1, -⟩ | ⟨-, -, -, hx⟩ | ⟨-, -, -, hx⟩
  · have : m.state.snapInterval = 0 := h0
    rw [hi] at this
    cases this
  · exact absurd ht h1
  · rw [hx]
    exact (retire_frame E m.fetched _).snapTimer.trans hfired
  · rw [hx]
    exact hfired

/-- A machine whose sink fires every cycle calls it once a turn, however the turn ends. -/
theorem cycle_firings {E : Env ε} {sink : SnapshotSink ε} (hs : E.snapSink = some sink)
    {m : Machine ε} (hi : m.state.snapInterval = 1) (ht : m.state.snapTimer = 1) :
    firings (landed (m.cycle E)).history =
      firings m.history ++ [⟨m.advance.vm.snapshot, m.advance.vm.drained, m.env⟩] := by
  have hfired : firings (m.advance.tick.fired E).history =
      firings m.history ++ [⟨m.advance.vm.snapshot, m.advance.vm.drained, m.env⟩] := by
    rw [fired_of_sink hs, firings_append, firings_fire]
    rfl
  unfold Machine.cycle
  rcases snapTick_cases E m.advance with ⟨h0, -⟩ | ⟨-, h1, -⟩ | ⟨-, -, -, hx⟩ | ⟨-, -, -, hx⟩
  · have : m.state.snapInterval = 0 := h0
    rw [hi] at this
    cases this
  · exact absurd ht h1
  · rw [hx]
    exact (retire_frame E m.fetched _).firings.trans hfired
  · rw [hx]
    exact hfired

/-- One call a turn. -/
theorem after_firings_length {E : Env ε} {sink : SnapshotSink ε}
    (hs : E.snapSink = some sink) {m m' : Machine ε} (hi : m.state.snapInterval = 1)
    (ht : m.state.snapTimer = 1) {n : Nat}
    (hn : StepLoop.after (Machine.cycle E) n m = .ok m') :
    (firings m'.history).length = (firings m.history).length + n := by
  induction n generalizing m with
  | zero =>
    obtain rfl : m = m' := by simpa using hn
    rfl
  | succ n ih =>
    cases hc : m.cycle E with
    | error x =>
      rw [StepLoop.after_succ_error hc] at hn
      cases hn
    | ok u =>
      have hfire := cycle_firings hs hi ht
      have hclock := cycle_every E hi ht
      rw [hc, landed_ok] at hfire hclock
      rw [StepLoop.after_succ_ok hc] at hn
      rw [ih hclock.1 hclock.2 hn, hfire, List.length_append, List.length_singleton]
      omega

/-! ## The history -/

/-- A cycle forgets nothing. -/
theorem cycle_history (E : Env ε) (m : Machine ε) :
    m.history <+: (landed (m.cycle E)).history := by
  have hretire : ∀ (u : Machine ε) (instr : UInt32),
      u.history <+: (landed (u.retire E instr)).history := by
    intro u instr
    unfold Machine.retire
    cases decode instr with
    | none => exact List.prefix_rfl
    | some i =>
      change u.history <+: (landed ((u.dispatched instr).apply E _)).history
      refine (List.prefix_append u.history _ : u.history <+: (u.dispatched instr).history).trans ?_
      cases i.effect u.mem u.state.cpu with
      | ask q dst =>
        change _ <+: (landed (Machine.receive _ dst (consult E.hooks q _ _))).history
        rw [landed_receive, received_history]
        exact List.prefix_append _ _
      | _ => exact List.prefix_rfl
  have hfired : m.history <+: (m.advance.tick.fired E).history := by
    cases hs : E.snapSink with
    | none =>
      rw [fired_of_none hs]
      exact List.prefix_rfl
    | some sink =>
      rw [fired_of_sink hs]
      exact List.prefix_append _ _
  unfold Machine.cycle
  rcases snapTick_cases E m.advance with ⟨-, ht⟩ | ⟨-, -, ht⟩ | ⟨-, -, -, ht⟩ | ⟨-, -, -, ht⟩
  · rw [ht]
    exact hretire m.advance m.fetched
  · rw [ht]
    exact hretire m.advance.tick m.fetched
  · rw [ht]
    exact hfired.trans (hretire (m.advance.tick.fired E) m.fetched)
  · rw [ht]
    exact hfired

/-- Nor does any number of them. -/
theorem after_history (E : Env ε) (m : Machine ε) (n : Nat) :
    m.history <+: (landed (StepLoop.after (Machine.cycle E) n m)).history := by
  induction n generalizing m with
  | zero => exact List.prefix_rfl
  | succ n ih =>
    have hfirst := cycle_history E m
    cases hc : m.cycle E with
    | ok m' =>
      rw [hc] at hfirst
      rw [StepLoop.after_succ_ok hc]
      exact hfirst.trans (ih m')
    | error x =>
      rw [hc] at hfirst
      rw [StepLoop.after_succ_error hc]
      exact hfirst

/-- Every turn counts one cycle. -/
theorem after_cycleCount {E : Env ε} {m m' : Machine ε} {n : Nat}
    (h : StepLoop.after (Machine.cycle E) n m = .ok m') :
    m'.state.cycleCount = m.state.cycleCount + UInt64.ofNat n := by
  induction n generalizing m' with
  | zero =>
    obtain rfl : m = m' := by simpa using h
    exact (UInt64.add_zero _).symm
  | succ n ih =>
    obtain ⟨u, hu, hc⟩ := StepLoop.after_ok_pred h
    have hcount := (cycle_frame E u).1
    rw [hc, landed_ok] at hcount
    rw [hcount, ih hu, UInt64.ofNat_add, UInt64.add_assoc]
    rfl

/-- With snapshots off they stay off. -/
theorem after_off {E : Env ε} {m m' : Machine ε} (h : m.state.snapInterval = 0) {n : Nat}
    (hn : StepLoop.after (Machine.cycle E) n m = .ok m') : m'.state.snapInterval = 0 := by
  refine StepLoop.after_invariant (I := fun u : Machine ε => u.state.snapInterval = 0)
    (fun s s' hs hc => ?_) h hn
  have := (cycle_frame E s).2.2
  rw [hc] at this
  exact this.trans hs

end RetroVM

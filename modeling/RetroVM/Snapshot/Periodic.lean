import RetroVM.Engine.Alike

/-!
# Snapshots are periodic and passive (`vm.cpp`, `TAIL_DISPATCH`; `vm.hpp`, `set_snapshot_interval`)

The timer is set to the interval `k`, counted down once a cycle, and reloaded on every firing
before a halt the sink asked for is honoured. `Clock c0 k q r` says how it stands `q * k + r`
cycles after the interval was set in cycle `c0`: the timer is at `k - r`, and the sink has been
called `q` times, in cycles `c0 + k`, `c0 + 2k`, …. `Resumed` are the machines a caller can reach
by calling `run` any number of times, setting `halted` back to `HALT_RUNNING` in between, however
the runs before ended.

Results:
* `cycle_clock`: a cycle keeps the clock, on a passed turn, a soft halt, a trap and a throw alike.
* `resumed_clock`: every machine the caller can reach keeps it.
* **`snapshots_are_periodic_and_passive`**.
-/

namespace RetroVM

variable {ε : Type}

/-! ## The timer -/

/-- How the snapshot timer stands `q * k + r` cycles after it was set in cycle `c0`. -/
structure Clock (c0 : UInt64) (k : UInt32) (q r : Nat) (m : Machine ε) : Prop where
  rest     : r < k.toNat
  cycle    : m.state.cycleCount = c0 + UInt64.ofNat (q * k.toNat + r)
  interval : m.state.snapInterval = k
  timer    : m.state.snapTimer.toNat = k.toNat - r
  firings  : (firings m.history).map (fun f => f.snapshot.cycleCount) =
    (List.range q).map fun j => c0 + UInt64.ofNat ((j + 1) * k.toNat)

section Clock

variable {c0 : UInt64} {k : UInt32} {q r : Nat} {m m' : Machine ε}

/-- The timer never leaves `1..k`. -/
theorem Clock.timer_range (h : Clock c0 k q r m) :
    1 ≤ m.state.snapTimer.toNat ∧ m.state.snapTimer.toNat ≤ k.toNat := by
  have hr := h.rest
  rw [h.timer]
  omega

theorem Clock.of_sameClock (h : Clock c0 k q r m) (hs : SameClock m m') : Clock c0 k q r m' where
  rest := h.rest
  cycle := hs.cycleCount.trans h.cycle
  interval := hs.snapInterval.trans h.interval
  timer := hs.snapTimer ▸ h.timer
  firings := hs.firings ▸ h.firings

theorem Clock.cycle_succ (h : Clock c0 k q r m) :
    m.state.cycleCount + 1 = c0 + UInt64.ofNat (q * k.toNat + r + 1) := by
  rw [h.cycle, UInt64.ofNat_add (q * k.toNat + r) 1, ← UInt64.add_assoc]
  rfl

/-- A tick that does not run the timer out. -/
theorem Clock.tick (h : Clock c0 k q r m) (ht : m.state.snapTimer ≠ 1) :
    Clock c0 k q (r + 1) m.advance.tick := by
  have hr := h.rest
  have htimer := h.timer
  have hne : m.state.snapTimer.toNat ≠ 1 := fun e => ht (UInt32.toNat.inj e)
  refine ⟨by omega, h.cycle_succ, h.interval, ?_, h.firings⟩
  change (m.state.snapTimer - 1).toNat = _
  rw [UInt32.toNat_sub_of_le _ _ (UInt32.le_iff_toNat_le.mpr (by
    change 1 ≤ m.state.snapTimer.toNat
    omega))]
  change m.state.snapTimer.toNat - 1 = _
  omega

/-- The tick that does: the sink is called, in the cycle that is due, and the timer reloaded. -/
theorem Clock.fired (h : Clock c0 k q r m) (ht : m.state.snapTimer = 1) {E : Env ε}
    {sink : SnapshotSink ε} (hs : E.snapSink = some sink) :
    Clock c0 k (q + 1) 0 (m.advance.tick.fired E) := by
  have hr := h.rest
  have hone : k.toNat - r = 1 := by
    rw [← h.timer, ht]
    rfl
  have hcycle : m.state.cycleCount + 1 = c0 + UInt64.ofNat ((q + 1) * k.toNat) := by
    rw [h.cycle_succ, Nat.succ_mul]
    congr 2
    omega
  rw [fired_of_sink hs]
  refine ⟨by omega, hcycle, h.interval, ?_, ?_⟩
  · exact congrArg UInt32.toNat h.interval
  · simp only [firings_append, firings_fire, List.map_append, List.range_succ]
    exact congrArg₂ _ h.firings (congrArg (fun c => [c]) hcycle)

/-- **A cycle keeps the clock**, whether the loop goes on, the sink halts it, the instruction traps
or a hook throws. -/
theorem cycle_clock (h : Clock c0 k q r m) {E : Env ε} {sink : SnapshotSink ε}
    (hs : E.snapSink = some sink) :
    ∃ q' r', q' * k.toNat + r' = q * k.toNat + r + 1 ∧ Clock c0 k q' r' (landed (m.cycle E)) := by
  have hr := h.rest
  have hk : m.advance.state.snapInterval ≠ 0 := by
    change m.state.snapInterval ≠ 0
    rw [h.interval]
    rintro rfl
    exact absurd hr (Nat.not_lt_zero r)
  have hdue : m.state.snapTimer = 1 → (q + 1) * k.toNat + 0 = q * k.toNat + r + 1 := by
    intro ht
    have htimer := h.timer
    rw [ht] at htimer
    change 1 = k.toNat - r at htimer
    rw [Nat.succ_mul]
    omega
  unfold Machine.cycle
  rcases snapTick_cases E m.advance with ⟨hi, -⟩ | ⟨-, ht, hx⟩ | ⟨-, ht, -, hx⟩ | ⟨-, ht, -, hx⟩
  · exact absurd hi hk
  · rw [hx]
    exact ⟨q, r + 1, rfl, (h.tick ht).of_sameClock (retire_frame E m.fetched _)⟩
  · rw [hx]
    exact ⟨q + 1, 0, hdue ht, (h.fired ht hs).of_sameClock (retire_frame E m.fetched _)⟩
  · rw [hx]
    exact ⟨q + 1, 0, hdue ht, h.fired ht hs⟩

/-- Any number of turns. -/
theorem after_clock (h : Clock c0 k q r m) {E : Env ε} {sink : SnapshotSink ε}
    (hs : E.snapSink = some sink) {n : Nat}
    (hn : StepLoop.after (Machine.cycle E) n m = .ok m') :
    ∃ q' r', q' * k.toNat + r' = q * k.toNat + r + n ∧ Clock c0 k q' r' m' := by
  induction n generalizing m' with
  | zero =>
    obtain rfl : m = m' := by simpa using hn
    exact ⟨q, r, rfl, h⟩
  | succ n ih =>
    obtain ⟨u, hu, hc⟩ := StepLoop.after_ok_pred hn
    obtain ⟨q', r', hcount, hclock⟩ := ih hu
    obtain ⟨q'', r'', hcount', hclock'⟩ := cycle_clock hclock hs
    rw [hc, landed_ok] at hclock'
    exact ⟨q'', r'', by omega, hclock'⟩

end Clock

/-! ## Any number of runs -/

/-- The machines a caller can reach from `m0` in `n` cycles: inside a run, or after it returned or
threw and the caller set `halted` back to `HALT_RUNNING`. -/
inductive Resumed (E : Env ε) (m0 : Machine ε) : Nat → Machine ε → Prop
  | start : Resumed E m0 0 m0
  | turn {n : Nat} {m m' : Machine ε} :
      Resumed E m0 n m → turn E m = .ok m' → Resumed E m0 (n + 1) m'
  | resume {n : Nat} {m : Machine ε} {x : Exit ε} :
      Resumed E m0 n m → turn E m = .error x →
        Resumed E m0 (n + 1) (x.machine.setHalted .running)

theorem resumed_running {E : Env ε} {m0 m : Machine ε} {n : Nat}
    (h0 : m0.state.halted = .running) (h : Resumed E m0 n m) : m.state.halted = .running := by
  induction h with
  | start => exact h0
  | turn _ ht ih =>
    rw [turn_eq_cycle E ih] at ht
    exact cycle_running ih ht
  | resume _ _ _ => rfl

/-- **Every machine the caller can reach keeps the clock.** -/
theorem resumed_clock {E : Env ε} {sink : SnapshotSink ε} (hs : E.snapSink = some sink)
    {c0 : UInt64} {k : UInt32} {m0 m : Machine ε} {n : Nat} (hrun : m0.state.halted = .running)
    (h0 : Clock c0 k 0 0 m0) (h : Resumed E m0 n m) :
    ∃ q r, q * k.toNat + r = n ∧ Clock c0 k q r m := by
  induction h with
  | start => exact ⟨0, 0, by omega, h0⟩
  | turn hm ht ih =>
    obtain ⟨q, r, rfl, hc⟩ := ih
    rw [turn_eq_cycle E (resumed_running hrun hm)] at ht
    have := cycle_clock hc hs
    rwa [ht] at this
  | resume hm ht ih =>
    obtain ⟨q, r, rfl, hc⟩ := ih
    rw [turn_eq_cycle E (resumed_running hrun hm)] at ht
    obtain ⟨q', r', hn, hc'⟩ := cycle_clock hc hs
    rw [ht] at hc'
    exact ⟨q', r', hn, hc'.of_sameClock ⟨rfl, rfl, rfl, rfl, rfl⟩⟩

theorem clock_start (vm : VM) {k : UInt32} (hk : k ≠ 0) (env : ε) :
    Clock vm.state.cycleCount k 0 0 (.start (vm.setSnapshotInterval k) env) where
  rest := Nat.pos_of_ne_zero fun e => hk (UInt32.toNat.inj e)
  cycle := by
    rw [Nat.zero_mul]
    exact (UInt64.add_zero _).symm
  interval := rfl
  timer := rfl
  firings := rfl

/-! ## A sink that never halts -/

section Passive

variable {η ς : Type}

/-- A sink with state of its own that may look at the hooks' state and never asks for a halt. -/
def watcher (sink : Snapshot → VM → η → ς → ς) : SnapshotSink (η × ς) := fun s vm e =>
  (none, (e.1, sink s vm e.1 e.2))

/-- A watched machine as its program sees it. -/
def Machine.unwatched (m : Machine (η × ς)) : Machine η where
  vm := m.vm
  env := m.env.1
  history := (calls m.history).map .call

/-- The snapshot-free machine follows the watched one. -/
def Watched (m : Machine (η × ς)) (k : Machine η) : Prop :=
  Alike ∅ (fun e io => e.1 = io) [] [] m k ∧ m.state.halted = .running ∧ k.state.snapInterval = 0

/-- A watcher lets every tick pass and leaves the hooks' state alone. -/
theorem watcher_snapTick (hooks : IOHooks (η × ς)) (sink : Snapshot → VM → η → ς → ς)
    (mode : DispatchMode) {m : Machine (η × ς)} (hr : m.state.halted = .running) :
    ∃ m', m.snapTick ⟨hooks, some (watcher sink), mode⟩ = .ok m' ∧ m'.env.1 = m.env.1 := by
  have hfired := fired_of_sink (E := ⟨hooks, some (watcher sink), mode⟩) rfl m.tick
  rcases snapTick_cases ⟨hooks, some (watcher sink), mode⟩ m with
    ⟨-, ht⟩ | ⟨-, -, ht⟩ | ⟨-, -, -, ht⟩ | ⟨-, -, hh, -⟩
  · exact ⟨m, ht, rfl⟩
  · exact ⟨m.tick, ht, rfl⟩
  · refine ⟨_, ht, ?_⟩
    rw [hfired]
    rfl
  · refine absurd ?_ hh
    rw [hfired]
    exact hr

/-- One turn of the watched run and of the snapshot-free one. -/
theorem watched_turn (hooks : IOHooks η) (sink : Snapshot → VM → η → ς → ς)
    (mode : DispatchMode) {m : Machine (η × ς)} {k : Machine η} (h : Watched m k) :
    StepLoop.Matched Watched (AlikeExit ∅ (fun e io => e.1 = io) [] [])
      (m.cycle ⟨hooks.beside ς, some (watcher sink), mode⟩) (k.cycle ⟨hooks, none, mode⟩) := by
  obtain ⟨ha, hr, hk⟩ := h
  obtain ⟨m', hm, henv⟩ := watcher_snapTick (hooks.beside ς) sink mode (m := m.advance) hr
  have hm'env : m'.env.1 = k.env := henv.trans ha.env
  have hmatch := cycle_alike (F := ⟨hooks, none, mode⟩) ha hr hk hm hm'env
    (fun a _ => Set.notMem_empty a) fun q dst _ => by
      rw [← hm'env]
      exact (beside_answers hooks q _ m'.env.1 m'.env.2).imp fun _ _ h => congrArg Prod.fst h
  rw [Set.empty_sdiff] at hmatch
  refine hmatch.imp (fun u v hu hv huv => ⟨huv, cycle_running hr hu, ?_⟩) fun _ _ _ _ h => h
  have := (cycle_frame ⟨hooks, none, mode⟩ k).2.2
  rw [hv] at this
  exact this.trans hk

/-- What two runs, one of them watched, have to agree on once they are over. -/
def SameOutcome (x : Exit (η × ς)) (y : Exit η) : Prop :=
  AlikeExit ∅ (fun e io => e.1 = io) [] [] x y

end Passive

/-- **Snapshotting is periodic and passive.** Set any interval `k` on any running VM.

* However often the caller resumes, after `n` cycles the sink has been called exactly `n / k`
  times, the `j`-th time in cycle `c0 + j * k`;
* whenever `run` comes back, by return or by throw, the timer is in `1..k`;
* with a sink that never halts, the run ends if and only if the snapshot-free run does, and then
  both stopped alike, in the same registers, pc, sp, flags, cycle, halt tag and memory, after the
  same calls. -/
theorem snapshots_are_periodic_and_passive (vm : VM) (hrun : vm.state.halted = .running)
    (k : UInt32) (hk : k ≠ 0) (mode : DispatchMode) :
    (∀ (ε : Type) (hooks : IOHooks ε) (sink : SnapshotSink ε) (env : ε) (n : Nat) (m : Machine ε),
      Resumed ⟨hooks, some sink, mode⟩ (.start (vm.setSnapshotInterval k) env) n m →
      m.state.cycleCount = vm.state.cycleCount + UInt64.ofNat n ∧
      (firings m.history).map (fun f => f.snapshot.cycleCount) =
        ((List.range (n / k.toNat)).map fun j =>
          vm.state.cycleCount + UInt64.ofNat ((j + 1) * k.toNat)) ∧
      ∀ x, turn ⟨hooks, some sink, mode⟩ m = .error x →
        1 ≤ x.machine.state.snapTimer.toNat ∧ x.machine.state.snapTimer.toNat ≤ k.toNat) ∧
    ∀ (η ς : Type) (hooks : IOHooks η) (sink : Snapshot → VM → η → ς → ς) (io : η) (sn : ς),
      let watched := turn ⟨hooks.beside ς, some (watcher sink), mode⟩
      let plain := turn ⟨hooks, none, mode⟩
      let m0 : Machine (η × ς) := .start (vm.setSnapshotInterval k) (io, sn)
      let k0 : Machine η := .start (vm.setSnapshotInterval 0) io
      (∀ x, StepLoop.Leaves watched m0 x → ∃ y, StepLoop.Leaves plain k0 y ∧ SameOutcome x y) ∧
      ∀ y, StepLoop.Leaves plain k0 y → ∃ x, StepLoop.Leaves watched m0 x ∧ SameOutcome x y := by
  constructor
  · intro ε hooks sink env n m hm
    have hstart := clock_start vm hk env
    have hrunning := resumed_running (E := ⟨hooks, some sink, mode⟩) hrun hm
    obtain ⟨q, r, rfl, hc⟩ := resumed_clock (E := ⟨hooks, some sink, mode⟩) rfl hrun hstart hm
    have hq : (q * k.toNat + r) / k.toNat = q := by
      rw [Nat.mul_comm, Nat.mul_add_div (Nat.zero_lt_of_lt hc.rest), Nat.div_eq_of_lt hc.rest,
        Nat.add_zero]
    refine ⟨hc.cycle, by rw [hq]; exact hc.firings, fun x hx => ?_⟩
    rw [turn_eq_cycle _ hrunning] at hx
    obtain ⟨q', r', -, hc'⟩ := cycle_clock (E := ⟨hooks, some sink, mode⟩) hc rfl
    rw [hx] at hc'
    exact hc'.timer_range
  · intro η ς hooks sink io sn watched plain m0 k0
    have h0 : Watched m0 k0 :=
      ⟨⟨rfl, rfl, rfl, rfl, fun _ _ => rfl, rfl, rfl⟩, hrun, rfl⟩
    have hstep := fun m k (h : Watched m k) => watched_turn hooks sink mode h
    have hm0 : ∀ x, StepLoop.Leaves watched m0 x ↔ _ := fun x => leaves_turn_iff hrun
    have hk0 : ∀ y, StepLoop.Leaves plain k0 y ↔ _ := fun y => leaves_turn_iff hrun
    simp only [hm0, hk0]
    exact ⟨fun x hx => StepLoop.leaves_of_matched hstep h0 hx,
      fun y hy => StepLoop.leaves_of_matched (fun k m h => (hstep m k h).symm) h0 hy⟩

/-- A snapshot every cycle, a sink that halts on every call, and one resume. -/
theorem snapshots_are_periodic_and_passive_one_resume :
    let sink : SnapshotSink Nat := fun _ _ n => (some .step, n + 1)
    let m0 : Machine Nat := .start (VM.init.setSnapshotInterval 1) 0
    ∃ m, Resumed ⟨⟨none, none, none⟩, some sink, .computedGoto⟩ m0 1 m ∧
      (firings m.history).map (fun f => f.snapshot.cycleCount) = [1] := by
  intro sink m0
  let E : Env Nat := ⟨⟨none, none, none⟩, some sink, .computedGoto⟩
  have hout : (StepLoop.exec (turn E) 1 m0).isSome := by decide +kernel
  obtain ⟨x, hx⟩ := Option.isSome_iff_exists.mp hout
  rw [StepLoop.exec_eq_some_iff, StepLoop.after_one] at hx
  have hm : Resumed E m0 1 (x.machine.setHalted .running) := .resume .start hx
  exact ⟨_, hm, ((snapshots_are_periodic_and_passive VM.init rfl 1 (by decide) .computedGoto).1
    Nat ⟨none, none, none⟩ sink 0 1 _ hm).2.1⟩

end RetroVM

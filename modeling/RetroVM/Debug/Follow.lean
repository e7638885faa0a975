import RetroVM.Debug.Rewind

/-!
# A debugger run follows the run without a debugger

From alike machines, a debugger run and a run without the sink do the same turn by turn until the
sink asks for a soft halt (`Pauses`). There the debugger's VM has fetched the next instruction and
not dispatched it: it is alike to the other one past its fetch (`advance`).

Results:
* `shadows_turn`, `shadows_pause`: one turn of both.
* **`runFrom_ends`**: how a run of the debugger ends.
* `runFrom_total`: it ends if the run without the debugger does.
-/

namespace RetroVM

variable {η : Type}

/-- Alike to a machine without the debugger, which has made no calls where `m` had made `pre`. -/
def Beside (pre : List Call) (m : Repl η) (k : Machine η) : Prop :=
  Alike ∅ (fun e io => e.1 = io) [] pre m k

/-- `m` runs, with the step boundary and the breakpoints of `d`, beside `k`. -/
structure Shadows (d : CmdDebug) (pre : List Call) (m : Repl η) (k : Machine η) : Prop
    extends Stepping m where
  beside      : Beside pre m k
  off         : k.state.snapInterval = 0
  target      : m.env.2.targetCycle = d.targetCycle
  breakpoints : m.env.2.breakpoints = d.breakpoints

/-- The sink asks for a soft halt on the next fetch of `k`. -/
def Pauses (d : CmdDebug) (k : Machine η) : Prop :=
  d.pause (k.state.cycleCount + 1) k.state.pc ≠ none

/-! ## The debugger's own state -/

section Own

variable (d : CmdDebug)

@[simp] theorem push_targetCycle (rs : ReplSnapshot) :
    (d.push rs).targetCycle = d.targetCycle := by
  unfold CmdDebug.push
  simp only
  split <;> rfl

@[simp] theorem push_breakpoints (rs : ReplSnapshot) :
    (d.push rs).breakpoints = d.breakpoints := by
  unfold CmdDebug.push
  simp only
  split <;> rfl

/-- The step boundary is switched off by a soft halt only. -/
theorem settle_of_pause_none {cycle : UInt64} {pc : UInt32} (h : d.pause cycle pc = none) :
    d.settle cycle = d := by
  unfold CmdDebug.pause at h
  unfold CmdDebug.settle
  split at h
  · cases h
  · next hoff => rw [if_neg hoff]

theorem pause_congr {d d' : CmdDebug} (ht : d.targetCycle = d'.targetCycle)
    (hb : d.breakpoints = d'.breakpoints) (cycle : UInt64) (pc : UInt32) :
    d.pause cycle pc = d'.pause cycle pc := by
  unfold CmdDebug.pause
  rw [ht, hb]

end Own

/-! ## One turn -/

section Turn

variable {d : CmdDebug} {pre : List Call} {m : Repl η} {k : Machine η}

theorem Shadows.pause_eq (h : Shadows d pre m k) :
    m.env.2.pause (m.state.cycleCount + 1) m.state.pc =
      d.pause (k.state.cycleCount + 1) k.state.pc := by
  rw [pause_congr h.target h.breakpoints, h.beside.cycleCount, h.beside.pc]

/-- **One turn that does not pause**: both do the same. -/
theorem shadows_turn (io : ReplMode η) (h : Shadows d pre m k) (hp : ¬ Pauses d k) :
    StepLoop.Matched (Shadows d pre) (AlikeExit ∅ (fun e io => e.1 = io) [] pre)
      (m.cycle (debugEnv io)) (k.cycle (plainEnv io)) := by
  have hnone : m.env.2.pause (m.state.cycleCount + 1) m.state.pc = none :=
    h.pause_eq.trans (Decidable.of_not_not hp)
  have htick := debug_tick io h.toStepping hnone
  have henv : m.env.1 = k.env := h.beside.env
  have hmatch := cycle_alike (F := plainEnv io) h.beside h.running h.off htick henv
    (fun a _ => Set.notMem_empty a) fun q dst _ => by
      rw [← henv]
      exact (beside_answers io.hooks q _ m.env.1 (m.pushed io)).imp fun _ _ he =>
        congrArg Prod.fst he
  rw [Set.empty_sdiff] at hmatch
  have hown : (landed (m.cycle (debugEnv io))).env.2 = m.pushed io := by
    rw [debug_cycle io h.toStepping hnone, retire_debug]
  refine hmatch.imp (fun u v hu hv huv => ?_) fun _ _ _ _ hxy => hxy
  have hoff := (cycle_frame (plainEnv io) k).2.2
  rw [hv] at hoff
  rw [hu, landed_ok] at hown
  refine ⟨h.toStepping.next hu, huv, hoff.trans h.off, ?_, ?_⟩
  · rw [hown, Machine.pushed, push_targetCycle, settle_of_pause_none _ hnone]
    exact h.target
  · rw [hown, Machine.pushed, push_breakpoints, settle_of_pause_none _ hnone]
    exact h.breakpoints

/-- The debugger stopped at `k` with a soft halt, the instruction `k` fetches next in flight. -/
def Paused (pre : List Call) (r : HaltReason) (m : Repl η) (k : Machine η) : Prop :=
  Beside pre m (k.advance.setHalted r)

/-- **One turn that pauses**: the instruction fetched is not dispatched. -/
theorem shadows_pause (io : ReplMode η) (h : Shadows d pre m k) (hp : Pauses d k) :
    ∃ x, m.cycle (debugEnv io) = .error x ∧ ∃ r,
      d.pause (k.state.cycleCount + 1) k.state.pc = some r ∧ x.stop = .returned r ∧
        Paused pre r x.machine k := by
  obtain ⟨r, hr⟩ := Option.ne_none_iff_exists'.mp hp
  refine ⟨_, debug_cycle_halt io h.toStepping (h.pause_eq.trans hr), r, hr, rfl, ?_⟩
  have hadv := h.beside.advance.setHalted r
  exact ⟨hadv.cpu, hadv.cycleCount, hadv.sp, rfl, hadv.mem, hadv.env, by
    simpa using hadv.calls⟩

end Turn

/-! ## Whole runs -/

/-- How a debugger run from `m`, beside `k`, ends: on the first turn that pauses, or, if the other
run ends before, as that one does. -/
inductive RunEnds (io : ReplMode η) (d : CmdDebug) (pre : List Call) (m : Repl η) (k : Machine η) :
    Reply η → Prop
  | paused {n : Nat} {k' : Machine η} {r : HaltReason} {m' : Repl η} :
      StepLoop.after (Machine.cycle (plainEnv io)) n k = .ok k' →
      StepLoop.Before (Pauses d) (Machine.cycle (plainEnv io)) k n →
      d.pause (k'.state.cycleCount + 1) k'.state.pc = some r → Paused pre r m' k' →
      (firedSince m m').length = n + 1 → RunEnds io d pre m k (.prompt m')
  | halted {n : Nat} {y : Exit η} {r : HaltReason} {m' : Repl η} :
      StepLoop.after (Machine.cycle (plainEnv io)) n k = .error y →
      StepLoop.Before (Pauses d) (Machine.cycle (plainEnv io)) k n →
      y.stop = .returned r → Beside pre m' y.machine → RunEnds io d pre m k (.prompt m')
  | diverged {n : Nat} {y : Exit η} {e : TraceMismatch} {m' : Repl η} :
      StepLoop.after (Machine.cycle (plainEnv io)) n k = .error y →
      StepLoop.Before (Pauses d) (Machine.cycle (plainEnv io)) k n →
      y.stop = .threw e → Beside pre m' y.machine → RunEnds io d pre m k (.diverged e m')

section Run

variable {io : ReplMode η} {d : CmdDebug} {pre : List Call} {m : Repl η} {k : Machine η}

/-- **How a run of the debugger ends.** -/
theorem runFrom_ends (h : Shadows d pre m k) {fuel : Nat} {reply : Reply η}
    (hr : runFrom io fuel m = some reply) : RunEnds io d pre m k reply := by
  obtain ⟨x, hx, hreply⟩ := Option.map_eq_some_iff.mp hr
  rw [exec_turn_eq _ h.running, StepLoop.exec_eq_some_iff] at hx
  obtain ⟨n, u, k', hu, hlast, hk, hR, hb, hend⟩ := StepLoop.leaves_pausing
    (fun m k hs hp => shadows_turn io hs hp) (fun m k hs hp => shadows_pause io hs hp) h ⟨fuel, hx⟩
  have hcount : (firedSince m x.machine).length = n + 1 := by
    have hfire := debug_firings io hR.toStepping
    rw [hlast, landed_error] at hfire
    unfold firedSince
    rw [List.length_drop, hfire, List.length_append, (after_firings io h.toStepping hu).2,
      List.length_singleton]
    omega
  rcases hend with ⟨-, r, hpause, hstop, hpaused⟩ | ⟨hnot, y, hy, halike⟩
  · rw [hstop] at hreply
    cases hreply
    exact .paused hk hb hpause hpaused hcount
  · have hy' : StepLoop.after (Machine.cycle (plainEnv io)) (n + 1) k = .error y := by
      rw [StepLoop.after_succ_right hk, hy]
    have hb' := hb.succ hk hnot
    cases hstop : x.stop with
    | returned r =>
      rw [hstop] at hreply
      cases hreply
      exact .halted hy' hb' (halike.stop ▸ hstop) halike.machine
    | threw e =>
      rw [hstop] at hreply
      cases hreply
      exact .diverged hy' hb' (halike.stop ▸ hstop) halike.machine

/-- It ends if the run without the debugger does. -/
theorem runFrom_total (h : Shadows d pre m k) {y : Exit η}
    (hy : StepLoop.Leaves (Machine.cycle (plainEnv io)) k y) :
    ∃ fuel reply, runFrom io fuel m = some reply := by
  obtain ⟨x, fuel, hx⟩ := StepLoop.leaves_of_pausing
    (fun m k hs hp => shadows_turn io hs hp) (fun m k hs hp => shadows_pause io hs hp) h hy
  refine ⟨fuel, _, Option.map_eq_some_iff.mpr ⟨x, ?_, rfl⟩⟩
  rw [exec_turn_eq _ h.running, StepLoop.exec_eq_some_iff]
  exact hx

/-- It stops on the first turn that pauses. -/
theorem runFrom_paused (io : ReplMode η) (h : Shadows d pre m k) {j : Nat} {k' : Machine η}
    (hk : StepLoop.after (Machine.cycle (plainEnv io)) j k = .ok k')
    (hb : StepLoop.Before (Pauses d) (Machine.cycle (plainEnv io)) k j) {r : HaltReason}
    (hpause : d.pause (k'.state.cycleCount + 1) k'.state.pc = some r) :
    ∃ m', runFrom io (j + 1) m = some (.prompt m') ∧ Paused pre r m' k' := by
  obtain ⟨u, hu, hshadow⟩ :=
    StepLoop.after_before (fun _ _ hs hp => shadows_turn io hs hp) h hk hb
  have hp : Pauses d k' := fun hnone => Option.some_ne_none r (hpause.symm.trans hnone)
  obtain ⟨x, hx, r', hr', hstop, hpaused⟩ := shadows_pause io hshadow hp
  obtain rfl : r = r' := Option.some.inj (hpause.symm.trans hr')
  refine ⟨x.machine, Option.map_eq_some_iff.mpr ⟨x, ?_, by rw [hstop]⟩, hpaused⟩
  rw [exec_turn_eq _ h.running, StepLoop.exec_eq_some_iff, StepLoop.after_succ_right hu, hx]

/-- A run goes on as it would from where it has got to. -/
theorem runFrom_after {u : Repl η} (hs : Stepping m) {j : Nat}
    (hu : StepLoop.after (Machine.cycle (debugEnv io)) j m = .ok u) (fuel : Nat) :
    runFrom io (j + fuel) m = runFrom io fuel u := by
  have hs' := (after_firings io hs hu).1
  unfold runFrom
  rw [exec_turn_eq _ hs.running, exec_turn_eq _ hs'.running]
  unfold StepLoop.exec
  rw [StepLoop.after_add_ok hu]

theorem runFrom_rest {u : Repl η} (hs : Stepping m) {j : Nat}
    (hu : StepLoop.after (Machine.cycle (debugEnv io)) j m = .ok u) {fuel : Nat} {reply : Reply η}
    (hr : runFrom io fuel m = some reply) : ∃ fuel', runFrom io fuel' u = some reply := by
  have hs' := (after_firings io hs hu).1
  obtain ⟨x, hx, hreply⟩ := Option.map_eq_some_iff.mp hr
  rw [exec_turn_eq _ hs.running, StepLoop.exec_eq_some_iff] at hx
  obtain ⟨fuel', hx'⟩ := StepLoop.Leaves.rest hu ⟨fuel, hx⟩
  refine ⟨fuel', Option.map_eq_some_iff.mpr ⟨x, ?_, hreply⟩⟩
  rw [exec_turn_eq _ hs'.running, StepLoop.exec_eq_some_iff]
  exact hx'

end Run

end RetroVM

import RetroVM.Debug.Follow

/-!
# Breakpoints (`main.cpp`, `install_debug_sink`, `cmd_debug_run`)

A fetch reads from pc modulo the size of the arena, and breakpoints are kept modulo that size. The
sink compares them with pc itself. pc leaves the arena when a program runs on past its end, and a
breakpoint on an address fetched from after that is not seen.

Results:
* `reached_masked`: the breakpoints of a session are arena addresses.
* `retire_enters`: a fetched word that has a handler enters it.
* `stops_iff`: when a fetch from an armed address stops before its handler.
* **`breakpoints_caught_iff`**; `breakpoint_missed`: `JUMP 0xFFFFC` and on past the end.
-/

namespace RetroVM

variable {η : Type}

/-! ## Fetches of a session -/

/-- The arena address the next fetch of `m` reads from. -/
def Machine.fetchAddr {ε : Type} (m : Machine ε) : UInt32 := m.state.pc &&& memMask

/-- The machines about to fetch in the runs of a session whose lines are all `issued`. -/
inductive AtFetch (io : ReplMode η) (bytes : List UInt8) (e : η)
    (issued : Repl η → Command → Prop) : Repl η → Prop
  | first {timeline : List (Moment η)} {lastRun : Nat} {m u : Repl η} {c : Command} {t : UInt64} :
      Reached io bytes e issued timeline lastRun m → issued m c → c.RunsTo m t →
        debugResume m = some u → AtFetch io bytes e issued (u.setTarget t)
  | next {m m' : Repl η} :
      AtFetch io bytes e issued m → turn (debugEnv io) m = .ok m' → AtFetch io bytes e issued m'

/-- A breakpoint is set on the address the next fetch reads from. -/
def Armed (m : Repl η) : Prop := m.fetchAddr ∈ m.env.2.breakpoints

/-- The run returns on its next turn, and no handler is entered. -/
def StopsBeforeHandler (io : ReplMode η) (m : Repl η) : Prop :=
  ∃ x r, turn (debugEnv io) m = .error x ∧ x.stop = .returned r ∧
    calls x.machine.history = calls m.history

/-- The step boundary is on and due in `cycle`. -/
def CmdDebug.BoundaryDue (d : CmdDebug) (cycle : UInt64) : Prop :=
  d.targetCycle ≠ uint64Max ∧ cycle ≥ d.targetCycle

/-- pc is still inside the arena, or the run stops on this fetch for another reason: the step
boundary is due, or the word fetched has no handler. -/
def Catchable (m : Repl η) : Prop :=
  m.state.pc.toNat < memSize ∨ m.env.2.BoundaryDue (m.state.cycleCount + 1) ∨
    decode m.fetched = none

/-! ## The breakpoints of a session -/

/-- Every breakpoint is an arena address. -/
def Masked (m : Repl η) : Prop := ∀ b ∈ m.env.2.breakpoints, b &&& memMask = b

theorem Masked.congr {m m' : Repl η} (h : Masked m)
    (hb : m'.env.2.breakpoints = m.env.2.breakpoints) : Masked m' := by
  unfold Masked
  rw [hb]
  exact h

theorem breakpointPc_masked (addr : UInt64) :
    breakpointPc addr &&& memMask = breakpointPc addr := by
  unfold breakpointPc
  rw [UInt32.and_assoc, UInt32.and_comm 0xFFFFFFFC, ← UInt32.and_assoc, and_memMask_and]

section Session

variable {io : ReplMode η} {m m' : Repl η}

/-- A turn of a run changes no breakpoint. -/
theorem cycle_breakpoints (h : Stepping m) :
    (landed (m.cycle (debugEnv io))).env.2.breakpoints = m.env.2.breakpoints := by
  have hsettle : ∀ cycle, (m.env.2.settle cycle).breakpoints = m.env.2.breakpoints := by
    intro cycle
    unfold CmdDebug.settle
    split <;> rfl
  have hpushed : (m.pushed io).breakpoints = m.env.2.breakpoints := by
    unfold Machine.pushed
    rw [push_breakpoints, hsettle]
  cases hp : m.env.2.pause (m.state.cycleCount + 1) m.state.pc with
  | some r =>
    rw [debug_cycle_halt io h hp]
    exact hpushed
  | none =>
    rw [debug_cycle io h hp, retire_debug]
    exact hpushed

/-- Nor does a whole run. -/
theorem runFrom_breakpoints (h : Stepping m) {fuel : Nat}
    (hr : runFrom io fuel m = some (.prompt m')) :
    m'.env.2.breakpoints = m.env.2.breakpoints := by
  obtain ⟨n, u, x, r, hu, hs, hlast, -, rfl⟩ := runFrom_last io h hr
  have hsame : Stepping u ∧ u.env.2.breakpoints = m.env.2.breakpoints :=
    StepLoop.after_invariant
      (I := fun v : Repl η => Stepping v ∧ v.env.2.breakpoints = m.env.2.breakpoints)
      (fun v v' hv hc => by
        have hb : (landed (v.cycle (debugEnv io))).env.2.breakpoints = v.env.2.breakpoints :=
          cycle_breakpoints hv.1
        rw [hc, landed_ok] at hb
        exact ⟨hv.1.next hc, hb.trans hv.2⟩) ⟨h, rfl⟩ hu
  have hb : (landed (u.cycle (debugEnv io))).env.2.breakpoints = u.env.2.breakpoints :=
    cycle_breakpoints hs
  rwa [hlast, landed_error, hsame.2] at hb

theorem backTo_breakpoints (io : ReplMode η) (n : Nat) (m : Repl η) :
    (backTo io n m).env.2.breakpoints = m.env.2.breakpoints := by
  unfold backTo
  simp only
  split
  · rfl
  split
  · rfl
  split
  · rfl
  · rfl

/-- A line that runs the VM changes no breakpoint. -/
theorem runs_breakpoints {timeline : List (Moment η)} (h : AtPrompt io timeline m) {c : Command}
    {t : UInt64} (ht : c.RunsTo m t) {fuel : Nat}
    (hm : command io fuel m c = some (.prompt m')) :
    m'.env.2.breakpoints = m.env.2.breakpoints := by
  cases hres : debugResume m with
  | none =>
    rw [command_refused ht hres] at hm
    cases hm
    rfl
  | some u =>
    rw [command_resumed ht hres] at hm
    obtain ⟨rfl, -⟩ := debugResume_some hres
    have hsame := runFrom_breakpoints (h.resumed t).2 hm
    exact hsame

/-- **A line keeps breakpoints arena addresses.** -/
theorem Masked.line (h : Masked m) {timeline : List (Moment η)} (hp : AtPrompt io timeline m)
    {fuel : Nat} {c : Command} (hm : command io fuel m c = some (.prompt m')) : Masked m' := by
  cases c with
  | step n =>
    by_cases hn : n = 0
    · subst hn
      obtain rfl : m = m' := by simpa [command] using hm
      exact h
    · have ht : (Command.step n).RunsTo m (m.state.cycleCount + n) := ⟨hn, rfl⟩
      exact h.congr (runs_breakpoints hp ht hm)
  | «continue» =>
    have ht : Command.continue.RunsTo m uint64Max := rfl
    exact h.congr (runs_breakpoints hp ht hm)
  | back n =>
    cases hm
    exact h.congr (backTo_breakpoints io n.toNat m)
  | breakpoint addr =>
    cases hm
    intro b hb
    rcases Finset.mem_insert.mp hb with rfl | hb
    · exact breakpointPc_masked addr
    · exact h b hb
  | breakpointDelete addr =>
    cases hm
    intro b hb
    exact h b (Finset.mem_of_mem_erase hb)
  | save =>
    cases hm
    exact h

variable {bytes : List UInt8} {e : η} {issued : Repl η → Command → Prop}

/-- **The breakpoints of a session are arena addresses.** -/
theorem reached_masked {timeline : List (Moment η)} {lastRun : Nat}
    (h : Reached io bytes e issued timeline lastRun m) : Masked m := by
  induction h with
  | start hstart =>
    obtain ⟨vm, -, rfl⟩ := debugStart_eq_some hstart
    intro b hb
    exact absurd hb (Finset.notMem_empty b)
  | command hreached _ hm ih => exact ih.line (reached_atPrompt hreached) hm

/-- Every fetch of a session is one of a running machine, its breakpoints arena addresses. -/
theorem atFetch_stepping (h : AtFetch io bytes e issued m) : Stepping m ∧ Masked m := by
  induction h with
  | first hreached _ _ hres =>
    obtain ⟨rfl, -⟩ := debugResume_some hres
    exact ⟨((reached_atPrompt hreached).resumed _).2, (reached_masked hreached).congr rfl⟩
  | @next u _ _ ht ih =>
    obtain ⟨hs, hmasked⟩ := ih
    have hb : (landed (u.cycle (debugEnv io))).env.2.breakpoints = u.env.2.breakpoints :=
      cycle_breakpoints hs
    rw [turn_eq_cycle _ hs.running] at ht
    rw [ht, landed_ok] at hb
    exact ⟨hs.next ht, hmasked.congr hb⟩

/-! ## One fetch -/

/-- **A fetched word that has a handler enters it**, whatever comes of it. -/
theorem retire_enters {ε : Type} (E : Env ε) {instr : UInt32} (u : Machine ε)
    (hd : decode instr ≠ none) :
    calls u.history ++ [.dispatch u.state.cycleCount (u.state.pc - 4) instr] <+:
      calls (landed (u.retire E instr)).history := by
  have hlog : calls (u.dispatched instr).history =
      calls u.history ++ [.dispatch u.state.cycleCount (u.state.pc - 4) instr] := by
    simp
  by_cases hask : ∃ q dst, decode instr = some (.ask q dst)
  · obtain ⟨q, dst, hq⟩ := hask
    rw [retire_ask hq, landed_receive, received_history, calls_append, hlog]
    exact List.prefix_append _ _
  · unfold Machine.retire
    cases hi : decode instr with
    | none => exact absurd hi hd
    | some i =>
      simp only
      cases he : i.effect u.mem u.state.cpu with
      | ask q dst => exact absurd ⟨q, dst, hi.trans (congrArg some (ask_of_effect he))⟩ hask
      | _ => exact hlog ▸ List.prefix_rfl

theorem and_memMask_of_lt {pc : UInt32} (h : pc.toNat < memSize) : pc &&& memMask = pc := by
  apply UInt32.toNat.inj
  have e : memMask.toNat = 2 ^ 20 - 1 := by decide
  rw [UInt32.toNat_and, e, Nat.and_two_pow_sub_one_eq_mod]
  exact Nat.mod_eq_of_lt h

/-- On an armed address the sink sees the breakpoint iff pc is inside the arena. -/
theorem armed_mem_iff (hmasked : Masked m) (ha : Armed m) :
    m.state.pc ∈ m.env.2.breakpoints ↔ m.state.pc.toNat < memSize := by
  constructor
  · intro hb
    rw [← hmasked _ hb]
    exact and_memMask_lt _
  · intro hlt
    have hfetch : m.fetchAddr = m.state.pc := and_memMask_of_lt hlt
    exact hfetch ▸ ha

/-- What makes the sink ask for a soft halt. -/
theorem pause_ne_none_iff (d : CmdDebug) (cycle : UInt64) (pc : UInt32) :
    d.pause cycle pc ≠ none ↔ d.BoundaryDue cycle ∨ pc ∈ d.breakpoints := by
  unfold CmdDebug.pause CmdDebug.BoundaryDue
  by_cases hdue : d.targetCycle ≠ uint64Max ∧ cycle ≥ d.targetCycle
  · simp [hdue]
  · by_cases hb : pc ∈ d.breakpoints
    · simp [hdue, hb]
    · simp [hdue, hb]

/-- **When a fetch from an armed address stops before its handler.** -/
theorem stops_iff (hs : Stepping m) (hmasked : Masked m) (ha : Armed m) :
    StopsBeforeHandler io m ↔ Catchable m := by
  have hpause := pause_ne_none_iff m.env.2 (m.state.cycleCount + 1) m.state.pc
  rw [armed_mem_iff hmasked ha] at hpause
  unfold StopsBeforeHandler Catchable
  rw [turn_eq_cycle _ hs.running]
  cases hp : m.env.2.pause (m.state.cycleCount + 1) m.state.pc with
  | some r =>
    have hcatch := hpause.mp (by rw [hp]; exact Option.some_ne_none r)
    refine iff_of_true ⟨_, r, debug_cycle_halt io hs hp, rfl, by simp⟩ ?_
    rcases hcatch with hdue | hlt
    · exact .inr (.inl hdue)
    · exact .inl hlt
  | none =>
    obtain ⟨hdue, hlt⟩ := not_or.mp fun h => hpause.mpr h hp
    rw [debug_cycle io hs hp]
    by_cases hd : decode m.fetched = none
    · refine iff_of_true ?_ (.inr (.inr hd))
      unfold Machine.retire
      rw [hd]
      exact ⟨_, _, rfl, rfl, by simp⟩
    · refine iff_of_false ?_ ?_
      · rintro ⟨x, r, hx, -, hcalls⟩
        have henters := retire_enters (debugEnv io) {
          vm := { m.advance.vm with deltas := [] }
          env := (m.env.1, m.pushed io)
          history := m.history ++ [.fire m.firing] } hd
        rw [hx, landed_error, hcalls] at henters
        have hlen := henters.length_le
        simp only [calls_append, calls_fire, List.append_nil, List.length_append,
          List.length_singleton] at hlen
        omega
      · rintro (h | h | h)
        · exact hlt h
        · exact hdue h
        · exact hd h

end Session

/-! ## Sessions -/

/-- **When no breakpoint of a session is missed.** Take any image, either mode, and any session:
every fetch from an armed address stops before its handler iff at every such fetch pc is inside the
arena, or the step boundary is due, or the word has no handler to enter. -/
theorem breakpoints_caught_iff (io : ReplMode η) (bytes : List UInt8) (e : η)
    (issued : Repl η → Command → Prop) :
    (∀ m, AtFetch io bytes e issued m → Armed m → StopsBeforeHandler io m) ↔
      ∀ m, AtFetch io bytes e issued m → Armed m → Catchable m := by
  have hfetch : ∀ m, AtFetch io bytes e issued m → Armed m →
      (StopsBeforeHandler io m ↔ Catchable m) := by
    intro m hm ha
    obtain ⟨hs, hmasked⟩ := atFetch_stepping hm
    exact stops_iff hs hmasked ha
  constructor
  · intro hall m hm ha
    exact (hfetch m hm ha).mp (hall m hm ha)
  · intro hall m hm ha
    exact (hfetch m hm ha).mpr (hall m hm ha)

/-- Any number of turns of a run of a session. -/
theorem AtFetch.after {io : ReplMode η} {bytes : List UInt8} {e : η}
    {issued : Repl η → Command → Prop} {m m' : Repl η} (h : AtFetch io bytes e issued m) {n : Nat}
    (hn : StepLoop.after (turn (debugEnv io)) n m = .ok m') : AtFetch io bytes e issued m' :=
  StepLoop.after_invariant (fun _ _ hu hc => hu.next hc) h hn

/-- **A breakpoint can be missed.** `HALT; LOAD R0, 0x10; STORE R0, 0xFFFFC; JUMP 0xFFFFC` and the
word `LI R1, 1`, which the program copies to the end of the arena: with a breakpoint at 0, the
second `continue` runs on past the end and enters the handler of the `HALT` at 0. -/
theorem breakpoint_missed :
    ¬ ∀ (bytes : List UInt8) (stdin rng : Nat → UInt32) (m : Repl (Nat × Nat)),
      AtFetch (freshMode stdin rng) bytes (0, 0) AnyLine m → Armed m →
        StopsBeforeHandler (freshMode stdin rng) m := by
  intro hall
  let io := freshMode (fun _ => 0) (fun _ => 0)
  let bytes := imageOf [0, encode 0x01 0 0 0x10, encode 0x02 0 0 0xFFFFC, encode 0x07 0 0 0xFFFFC,
    encode 0x0B 1 0 1]
  let fourTurns (p : Repl (Nat × Nat)) : Option (Repl (Nat × Nat)) :=
    (debugResume p).bind fun u =>
      match StepLoop.after (turn (debugEnv io)) 4 (u.setTarget uint64Max) with
      | .ok m => some m
      | .error _ => none
  have hrun : (((debugStart io bytes (0, 0)).bind fun m =>
      session io 4 m [.breakpoint 0, .continue]).bind fourTurns).map
        (fun m => (m.state.pc, m.fetched, m.env.2.targetCycle, decide (0 ∈ m.env.2.breakpoints))) =
      some (0x100000, 0, uint64Max, true) := by
    decide +kernel
  obtain ⟨m, hm, hseen⟩ := Option.map_eq_some_iff.mp hrun
  obtain ⟨p, hp, hturns⟩ := Option.bind_eq_some_iff.mp hm
  obtain ⟨m0, hm0, hsession⟩ := Option.bind_eq_some_iff.mp hp
  obtain ⟨u, hu, hafter⟩ := Option.bind_eq_some_iff.mp hturns
  simp only [Prod.mk.injEq, decide_eq_true_eq] at hseen
  obtain ⟨hpc, hword, htarget, hmem⟩ := hseen
  have hfresh : Reached io bytes (0, 0) AnyLine _ _ m0 := .start hm0
  obtain ⟨timeline, lastRun, hreached⟩ := reached_session hfresh (fun _ _ _ => trivial) hsession
  have hfetch : AtFetch io bytes (0, 0) AnyLine m := by
    have hfirst : AtFetch io bytes (0, 0) AnyLine (u.setTarget uint64Max) :=
      .first hreached trivial (c := .continue) rfl hu
    cases hx : StepLoop.after (turn (debugEnv io)) 4 (u.setTarget uint64Max) with
    | error x =>
      rw [hx] at hafter
      cases hafter
    | ok m' =>
      rw [hx] at hafter
      cases hafter
      exact hfirst.after hx
  have ha : Armed m := by
    unfold Armed Machine.fetchAddr
    rw [hpc]
    exact hmem
  obtain ⟨hs, hmasked⟩ := atFetch_stepping hfetch
  rcases (stops_iff hs hmasked ha).mp (hall bytes _ _ m hfetch ha) with hlt | hdue | hnone
  · rw [hpc] at hlt
    exact absurd hlt (by decide)
  · exact hdue.1 htarget
  · rw [hword] at hnone
    exact absurd hnone (by decide)

end RetroVM

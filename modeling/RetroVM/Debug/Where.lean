import RetroVM.Assembler.Disassemble
import RetroVM.Debug.Breakpoints

/-!
# What `where` shows (`main.cpp`, `cmd_debug_where`; `tests/debug.sh`)

`where` disassembles the word at pc, or, in a halted VM, the one before it. The engine leaves pc in
different places: behind the word fetched on a soft halt, on `HALT` and on an unknown opcode, on the
`DIV` itself on a trap, and behind the word of the snapshot after `back`. What runs next is always
the word at pc.

Results:
* `firstDispatch_iff`: where a run dispatches its first instruction, if it does.
* `reached_haltedOn`: the fetch a natural halt came from.
* **`where_right_iff`**: at which prompts `where` shows the right instruction.
-/

namespace RetroVM

variable {η : Type}

/-- `visible_pc` of `cmd_debug_where`. -/
def visiblePc (m : Repl η) : UInt32 :=
  if m.state.halted = .running then m.state.pc else m.state.pc - 4

/-- `cmd_debug_where`: the address it prints, and the instruction. -/
def cmdDebugWhere (m : Repl η) : UInt32 × List Char :=
  (visiblePc m, disassembleOne m.mem (visiblePc m))

/-- The first thing a run from `m` is seen to do is to enter the handler of a word fetched at
`addr`. -/
def FirstDispatch (io : ReplMode η) (m : Repl η) (addr : UInt32) : Prop :=
  ∃ k cycle instr rest,
    calls (landed (StepLoop.after (turn (debugEnv io)) k m)).history =
      calls m.history ++ .dispatch cycle addr instr :: rest

/-- `u` is about to fetch, and the run returns on its turn and leaves the VM as it is in `m`. -/
structure HaltedOn (io : ReplMode η) (bytes : List UInt8) (e : η)
    (issued : Repl η → Command → Prop) (u m : Repl η) : Prop where
  atFetch : AtFetch io bytes e issued u
  left : ∃ x r, turn (debugEnv io) u = .error x ∧ x.stop = .returned r ∧ x.machine.vm = m.vm ∧
    x.machine.history = m.history

/-- `where` shows the right instruction: of a session that can be resumed, the one the next `step`
or `continue` dispatches first, if it dispatches any; of a program that has halted, the one that
halted it. -/
structure WhereRight (io : ReplMode η) (bytes : List UInt8) (e : η)
    (issued : Repl η → Command → Prop) (m : Repl η) : Prop where
  next : m.state.halted.resumable → ∀ (c : Command) t u addr, c.RunsTo m t →
    debugResume m = some u → FirstDispatch io (u.setTarget t) addr → (cmdDebugWhere m).1 = addr
  cause : m.state.halted.natural →
    ∃ u, HaltedOn io bytes e issued u m ∧ (cmdDebugWhere m).1 = u.state.pc

/-! ## The first instruction of a run -/

section First

variable {m : Repl η}

/-- On its first fetch a run either stops with nothing entered, or enters the handler. -/
theorem first_turn (io : ReplMode η) (h : Stepping m) :
    (m.env.2.pause (m.state.cycleCount + 1) m.state.pc ≠ none ∨ decode m.fetched = none) ∧
        (∃ x, m.cycle (debugEnv io) = .error x ∧ calls x.machine.history = calls m.history) ∨
      (m.env.2.pause (m.state.cycleCount + 1) m.state.pc = none ∧ decode m.fetched ≠ none) ∧
        calls m.history ++ [.dispatch (m.state.cycleCount + 1) m.state.pc m.fetched] <+:
          calls (landed (m.cycle (debugEnv io))).history := by
  cases hp : m.env.2.pause (m.state.cycleCount + 1) m.state.pc with
  | some r =>
    exact .inl ⟨.inl (Option.some_ne_none r), _, debug_cycle_halt io h hp, by simp⟩
  | none =>
    rw [debug_cycle io h hp]
    by_cases hd : decode m.fetched = none
    · refine .inl ⟨.inr hd, ?_⟩
      unfold Machine.retire
      rw [hd]
      exact ⟨_, rfl, by simp⟩
    · refine .inr ⟨⟨rfl, hd⟩, ?_⟩
      have henters := retire_enters (debugEnv io) {
        vm := { m.advance.vm with deltas := [] }
        env := (m.env.1, m.pushed io)
        history := m.history ++ [.fire m.firing] } hd
      have hpc : m.state.pc + 4 - 4 = m.state.pc := UInt32.add_sub_cancel _ _
      simp only [calls_append, calls_fire, List.append_nil, advance_state, hpc] at henters
      exact henters

/-- What the first turn calls, the run has called. -/
theorem first_calls_kept {ε : Type} (E : Env ε) (m : Machine ε) (k : Nat) :
    calls (landed (m.cycle E)).history <+:
      calls (landed (StepLoop.after (Machine.cycle E) (k + 1) m)).history := by
  cases hc : m.cycle E with
  | error x =>
    rw [StepLoop.after_succ_error hc]
  | ok m' =>
    rw [StepLoop.after_succ_ok hc]
    exact (after_history E m' k).filterMap _

/-- **Where a run dispatches its first instruction**: at pc, unless the first fetch stops it. -/
theorem firstDispatch_iff {io : ReplMode η} (h : Stepping m) {addr : UInt32} :
    FirstDispatch io m addr ↔
      (m.env.2.pause (m.state.cycleCount + 1) m.state.pc = none ∧ decode m.fetched ≠ none) ∧
        addr = m.state.pc := by
  unfold FirstDispatch
  simp only [after_turn_eq (debugEnv io) h.running]
  rcases first_turn io h with ⟨hstops, x, hx, hcalls⟩ | ⟨hgoes, henters⟩
  · refine iff_of_false ?_ fun hgoes => hstops.elim (fun hp => hp hgoes.1.1) hgoes.1.2
    rintro ⟨k, cycle, instr, rest, heq⟩
    have hsame : calls (landed (StepLoop.after (Machine.cycle (debugEnv io)) k m)).history =
        calls m.history := by
      cases k with
      | zero => rfl
      | succ k =>
        rw [StepLoop.after_succ_error hx]
        exact hcalls
    rw [hsame] at heq
    exact absurd (List.self_eq_append_right.mp heq) (List.cons_ne_nil _ _)
  · constructor
    · rintro ⟨k, cycle, instr, rest, heq⟩
      refine ⟨hgoes, ?_⟩
      cases k with
      | zero => exact absurd (List.self_eq_append_right.mp heq) (List.cons_ne_nil _ _)
      | succ k =>
        have hfirst := henters.trans (first_calls_kept (debugEnv io) m k)
        rw [heq, List.prefix_append_right_inj, List.cons_prefix_cons] at hfirst
        exact (Call.dispatch.inj hfirst.1).2.1.symm
    · rintro ⟨-, rfl⟩
      obtain ⟨rest, hrest⟩ := henters
      refine ⟨1, m.state.cycleCount + 1, m.fetched, rest, ?_⟩
      rw [StepLoop.after_one, ← hrest, List.append_assoc]
      rfl

end First

/-! ## The instruction that halted the program -/

section Cause

variable {io : ReplMode η} {bytes : List UInt8} {e : η} {issued : Repl η → Command → Prop}
  {m u : Repl η}

/-- **Where a natural halt leaves pc**: behind the word fetched, or on it, if it trapped. -/
theorem retire_natural_pc {ε : Type} {E : Env ε} {instr : UInt32} {k : Machine ε} {x : Exit ε}
    (h : k.retire E instr = .error x) {r : HaltReason} (hr : x.stop = .returned r) :
    x.machine.state.pc = if r = .divZero then k.state.pc - 4 else k.state.pc := by
  unfold Machine.retire at h
  cases hd : decode instr with
  | none =>
    rw [hd] at h
    cases h
    cases hr
    rfl
  | some i =>
    rw [hd] at h
    simp only at h
    cases i with
    | halt =>
      cases h
      cases hr
      rfl
    | div dst src =>
      simp only [Instr.effect] at h
      split at h
      · cases h
        cases hr
        rfl
      · cases h
    | ask q dst =>
      change Machine.receive _ _ (consult E.hooks q _ _) = _ at h
      unfold Machine.receive at h
      split at h
      · cases h
      · cases h
        cases hr
    | _ => cases h

/-- Where a program that halted left pc, by the fetch it halted on. -/
theorem HaltedOn.pc (h : HaltedOn io bytes e issued u m) (hnat : m.state.halted.natural) :
    m.state.pc = if m.state.halted = .divZero then u.state.pc else u.state.pc + 4 := by
  obtain ⟨x, r, hx, hstop, hvm, -⟩ := h.left
  obtain ⟨hs, -⟩ := atFetch_stepping h.atFetch
  have hstate : x.machine.state = m.state := congrArg VM.state hvm
  rw [turn_eq_cycle _ hs.running] at hx
  cases hp : u.env.2.pause (u.state.cycleCount + 1) u.state.pc with
  | some r' =>
    -- a soft halt is not natural
    rw [debug_cycle_halt io hs hp] at hx
    cases hx
    have hhalt : r' = m.state.halted := congrArg VMState.halted hstate
    rw [← hhalt] at hnat
    rcases pause_ne_running hp with rfl | rfl <;> rcases hnat with hn | hn | hn <;> cases hn
  | none =>
    rw [debug_cycle io hs hp] at hx
    have hpc := retire_natural_pc hx hstop
    obtain ⟨e', he'⟩ | ⟨r', hr', hhalt, -⟩ := retire_exit hx
    · cases hstop.symm.trans he'
    · obtain rfl : r = r' := Stop.returned.inj (hstop.symm.trans hr')
      rw [hstate] at hpc hhalt
      rw [hpc, hhalt, show u.advance.vm.state.pc = u.state.pc + 4 from rfl,
        UInt32.add_sub_cancel]

theorem HaltedOn.congr {m' : Repl η} (h : HaltedOn io bytes e issued u m) (hvm : m'.vm = m.vm)
    (hhistory : m'.history = m.history) : HaltedOn io bytes e issued u m' := by
  obtain ⟨x, r, hx, hstop, hleft, hdid⟩ := h.left
  exact ⟨h.atFetch, x, r, hx, hstop, hleft.trans hvm.symm, hdid.trans hhistory.symm⟩

/-- **Every natural halt of a session came from a fetch of it.** -/
theorem reached_haltedOn {timeline : List (Moment η)} {lastRun : Nat}
    (h : Reached io bytes e issued timeline lastRun m) (hnat : m.state.halted.natural) :
    ∃ u, HaltedOn io bytes e issued u m := by
  induction h with
  | start hstart =>
    obtain ⟨vm, hb, rfl⟩ := debugStart_eq_some hstart
    rcases hnat with hn | hn | hn <;> cases (boot_running hb).1.symm.trans hn
  | command hreached hissued hm ih =>
    have hprompt := reached_atPrompt hreached
    cases command_cases hm with
    | kept =>
      obtain ⟨u, hu⟩ := ih hnat
      exact ⟨u, hu.congr rfl rfl⟩
    | @ran t _ ht hres hr =>
      have hs := (hprompt.resumed t).2
      obtain ⟨n, u, x, r, hu, hs', hx, hstop, rfl⟩ := runFrom_last io hs hr
      refine ⟨u, AtFetch.after (.first hreached hissued ht hres) (n := n) ?_,
        x, r, ?_, hstop, rfl, rfl⟩
      · rw [after_turn_eq _ hs.running, hu]
      · rw [turn_eq_cycle _ hs'.running, hx]
    | rewound _ hpos hn =>
      obtain ⟨f, hf, hback⟩ := hprompt.backTo_eq hpos hn
      obtain ⟨-, hrun⟩ := hprompt.genuine f (List.mem_of_getElem? hf)
      rw [hback] at hnat
      rcases hnat with hn | hn | hn <;> cases hrun.symm.trans hn

end Cause

/-! ## What `where` shows -/

theorem sub_four_ne (a : UInt32) : a - 4 ≠ a := by
  intro h
  have hzero : a - 4 - a = 0 := by rw [h, UInt32.sub_self]
  rw [UInt32.sub_eq_add_neg a, UInt32.add_comm, UInt32.add_sub_cancel] at hzero
  exact absurd hzero (by decide)

section Where

variable {io : ReplMode η} {bytes : List UInt8} {e : η} {issued : Repl η → Command → Prop}
  {timeline : List (Moment η)} {lastRun : Nat} {m : Repl η}

/-- At a prompt, a run with boundary `t` dispatches its first instruction at pc, unless the first
fetch stops it. -/
theorem AtPrompt.firstDispatch_iff (h : AtPrompt io timeline m) (t : UInt64) {addr : UInt32} :
    FirstDispatch io ((m.setHalted .running).setTarget t) addr ↔
      (¬ CmdDebug.BoundaryDue { m.env.2 with targetCycle := t } (m.state.cycleCount + 1) ∧
        ¬ (m.state.pc ∈ m.env.2.breakpoints ∨ decode m.fetched = none)) ∧ addr = m.state.pc := by
  rw [RetroVM.firstDispatch_iff (h.resumed t).2, not_or, ← and_assoc, ← not_or,
    ← pause_ne_none_iff, not_not]
  rfl

/-- What `where` shows of a session that can be resumed. -/
theorem AtPrompt.shows_next_iff (h : AtPrompt io timeline m) (hres : m.state.halted.resumable) :
    (∀ (c : Command) t u addr, c.RunsTo m t → debugResume m = some u →
        FirstDispatch io (u.setTarget t) addr → (cmdDebugWhere m).1 = addr) ↔
      m.state.halted = .running ∨ m.state.pc ∈ m.env.2.breakpoints ∨ decode m.fetched = none := by
  have hresume := debugResume_resumable hres
  change (∀ (c : Command) t u addr, _ → _ → _ → visiblePc m = addr) ↔ _
  unfold visiblePc
  by_cases hrun : m.state.halted = .running
  · rw [if_pos hrun]
    refine iff_of_true (fun c t u addr _ hu hfirst => ?_) (.inl hrun)
    obtain rfl := Option.some.inj (hresume.symm.trans hu)
    exact ((h.firstDispatch_iff t).mp hfirst).2.symm
  · rw [if_neg hrun, or_iff_right hrun]
    constructor
    · intro hnext
      by_contra hgoes
      have hoff : ¬ CmdDebug.BoundaryDue { m.env.2 with targetCycle := uint64Max }
          (m.state.cycleCount + 1) := fun hdue => hdue.1 rfl
      exact sub_four_ne m.state.pc (hnext .continue _ _ m.state.pc rfl hresume
        ((h.firstDispatch_iff _).mpr ⟨⟨hoff, hgoes⟩, rfl⟩))
    · rintro hstops c t u addr - hu hfirst
      obtain rfl := Option.some.inj (hresume.symm.trans hu)
      exact absurd hstops ((h.firstDispatch_iff t).mp hfirst).1.2

/-- What `where` shows of a program that has halted. -/
theorem shows_cause_iff (h : Reached io bytes e issued timeline lastRun m)
    (hnat : m.state.halted.natural) :
    (∃ u, HaltedOn io bytes e issued u m ∧ (cmdDebugWhere m).1 = u.state.pc) ↔
      m.state.halted ≠ .divZero := by
  have hshown : (cmdDebugWhere m).1 = m.state.pc - 4 :=
    if_neg fun hrun => by rcases hnat with hn | hn | hn <;> cases hrun.symm.trans hn
  rw [hshown]
  constructor
  · rintro ⟨u, hu, hpc⟩ hdiv
    have htrap := hu.pc hnat
    rw [if_pos hdiv] at htrap
    exact sub_four_ne m.state.pc (hpc.trans htrap.symm)
  · intro hdiv
    obtain ⟨u, hu⟩ := reached_haltedOn h hnat
    have hbehind := hu.pc hnat
    rw [if_neg hdiv] at hbehind
    exact ⟨u, hu, by rw [hbehind, UInt32.add_sub_cancel]⟩

end Where

/-- **When `where` shows the right instruction**, at any prompt of any session. It does in a VM that
is running, that `HALT` stopped or that met an unknown opcode. On a `DIV` that trapped it shows the
word before it. After a step or a breakpoint it shows the word that never ran, and is wrong as soon
as the one behind it is entered. -/
theorem where_right_iff (io : ReplMode η) (bytes : List UInt8) (e : η)
    (issued : Repl η → Command → Prop) (timeline : List (Moment η)) (lastRun : Nat) (m : Repl η)
    (h : Reached io bytes e issued timeline lastRun m) :
    WhereRight io bytes e issued m ↔
      m.state.halted = .running ∨ m.state.halted = .normal ∨ m.state.halted = .unknownOp ∨
        (m.state.halted = .step ∨ m.state.halted = .breakpoint) ∧
          (m.state.pc ∈ m.env.2.breakpoints ∨ decode m.fetched = none) := by
  have hprompt := reached_atPrompt h
  have hsplit : WhereRight io bytes e issued m ↔
      (m.state.halted.resumable → m.state.halted = .running ∨
        m.state.pc ∈ m.env.2.breakpoints ∨ decode m.fetched = none) ∧
      (m.state.halted.natural → m.state.halted ≠ .divZero) := by
    constructor
    · rintro ⟨hnext, hcause⟩
      exact ⟨fun hres => (hprompt.shows_next_iff hres).mp (hnext hres),
        fun hnat => (shows_cause_iff h hnat).mp (hcause hnat)⟩
    · rintro ⟨hnext, hcause⟩
      exact ⟨fun hres => (hprompt.shows_next_iff hres).mpr (hnext hres),
        fun hnat => (shows_cause_iff h hnat).mpr (hcause hnat)⟩
  have hstanding : m.state.halted.natural ∨ m.state.halted.resumable :=
    hprompt.standing.imp_right And.left
  rw [hsplit]
  unfold HaltReason.natural HaltReason.resumable at *
  cases hh : m.state.halted <;> simp [hh] at hstanding ⊢

/-- `LI R0, 5; HALT`. -/
def fiveThenHalt : List UInt8 := imageOf [encode 0x0B 0 0 5, 0]

/-- Run to its `HALT`, `where` shows the `HALT`. -/
theorem where_shows_halt :
    ∃ m₀ m : Repl Nat, debugStart (replayMode []) fiveThenHalt 0 = some m₀ ∧
      session (replayMode []) 3 m₀ [.continue] = some m ∧ (cmdDebugWhere m).1 = 4 ∧
        WhereRight (replayMode []) fiveThenHalt 0 AnyLine m := by
  have hrun : ((debugStart (replayMode []) fiveThenHalt 0).bind fun m =>
      session (replayMode []) 3 m [.continue]).map (fun m =>
        (m.state.halted, (cmdDebugWhere m).1)) = some (.normal, 4) := by
    decide +kernel
  obtain ⟨m, hm, hseen⟩ := Option.map_eq_some_iff.mp hrun
  obtain ⟨m₀, hm₀, hsession⟩ := Option.bind_eq_some_iff.mp hm
  obtain ⟨hnormal, hshown⟩ := Prod.mk.inj hseen
  obtain ⟨timeline, lastRun, hreached⟩ := reached_session (.start hm₀)
    (fun _ _ _ => trivial) hsession
  exact ⟨m₀, m, hm₀, hsession, hshown,
    (where_right_iff _ _ _ _ _ _ m hreached).mpr (.inr (.inl hnormal))⟩

/-- **After `step 1` `where` shows the `LI` that never runs**: the next line enters the `HALT`
behind it. -/
theorem where_shows_skipped :
    ∃ m₀ m : Repl Nat, debugStart (replayMode []) fiveThenHalt 0 = some m₀ ∧
      session (replayMode []) 1 m₀ [.step 1] = some m ∧
        (cmdDebugWhere m).1 = 0 ∧
        FirstDispatch (replayMode []) ((m.setHalted .running).setTarget uint64Max) 4 ∧
        ¬ WhereRight (replayMode []) fiveThenHalt 0 AnyLine m := by
  have hrun : ((debugStart (replayMode []) fiveThenHalt 0).bind fun m =>
      session (replayMode []) 1 m [.step 1]).map (fun m =>
        (m.state.halted, m.state.pc, decide (m.state.pc ∈ m.env.2.breakpoints), m.fetched,
          (cmdDebugWhere m).1)) = some (.step, 4, false, 0, 0) := by
    decide +kernel
  obtain ⟨m, hm, hseen⟩ := Option.map_eq_some_iff.mp hrun
  obtain ⟨m₀, hm₀, hsession⟩ := Option.bind_eq_some_iff.mp hm
  simp only [Prod.mk.injEq] at hseen
  obtain ⟨hstep, hpc, hnone, hzero, hshown⟩ := hseen
  obtain ⟨timeline, lastRun, hreached⟩ := reached_session (.start hm₀)
    (fun _ _ _ => trivial) hsession
  have hprompt := reached_atPrompt hreached
  have hfirst : FirstDispatch (replayMode []) ((m.setHalted .running).setTarget uint64Max) 4 := by
    refine (hprompt.firstDispatch_iff uint64Max).mpr ⟨⟨fun hdue => hdue.1 rfl, ?_⟩, hpc.symm⟩
    rintro (hmem | hd)
    · exact of_decide_eq_false hnone hmem
    · rw [hzero] at hd
      cases hd
  refine ⟨m₀, m, hm₀, hsession, hshown, hfirst, fun hright => ?_⟩
  have hresume := debugResume_resumable (m := m) (.inr (.inl hstep))
  have haddr := hright.next (.inr (.inl hstep)) .continue uint64Max _ 4 rfl hresume hfirst
  exact absurd (hshown.symm.trans haddr) (by decide)

end RetroVM

import RetroVM.Debug.Transparency

/-!
# Rewind, then run again (`main.cpp`, `back`, then `step` or `continue`; `tests/debug.sh`)

After `back` the VM runs on from a snapshot with the instruction fetched there not dispatched. The
run that once started from that snapshot dropped that instruction too, so going back to where the
last run started and stepping as far repeats it (`CameFrom`). Going back to any other snapshot does
not: `rerun_loses_instruction`. And `continue` from the stop drops the instruction in flight there,
which the run from further back dispatches: the two agree if it does nothing (`IdleInFlight`).

Results:
* `reached_cameFrom`: at a soft halt, what the last run was.
* **`rerun_recovers`**, and `rerun_loses_instruction`, where it fails.
-/

namespace RetroVM

/-! ## Running again from a snapshot -/

/-- What a run from snapshot `f` starts from: the word fetched there is not dispatched. -/
def Firing.rerun {η : Type} (f : Moment η) : Machine η :=
  .start ((f.vm.setSnapshotInterval 0).requestHalt .running) f.env.1

/-- `m` stopped softly after `n` fetches from snapshot `f`. -/
inductive CameFrom (frames : Trace) (f : Moment Nat) (m : Repl Nat) : Nat → Prop
  | intro {d : CmdDebug} {k : Machine Nat} {pre : List Call} {j : Nat} :
      StepLoop.after (Machine.cycle (replayEnv frames)) j f.rerun = .ok k →
      StepLoop.Before (Pauses d) (Machine.cycle (replayEnv frames)) f.rerun j →
      d.pause (k.state.cycleCount + 1) k.state.pc = some m.state.halted →
      Paused pre m.state.halted m k → CameFrom frames f m (j + 1)

section Rerun

variable {frames : Trace} {P : Moment Nat → Prop} {timeline : List (Moment Nat)} {m m' : Repl Nat}
  {f : Moment Nat}

/-- A session standing at a snapshot runs on from there. -/
theorem Stands.beside (h : Stands (replayMode frames) m f) :
    Beside (calls m.history) (m.setHalted .running) f.rerun where
  cpu := by
    change m.state.cpu = f.vm.state.cpu
    unfold VMState.cpu
    rw [h.regs, h.pc, h.flags]
  cycleCount := h.cycleCount
  sp := h.sp
  halted := rfl
  mem := fun a _ => congrFun h.mem a
  env := h.cursor
  calls := (List.append_nil _).symm

theorem Stands.shadows (h : Stands (replayMode frames) m f)
    (hp : AtPrompt (replayMode frames) timeline m) (c : UInt64) :
    Shadows { m.env.2 with targetCycle := c } (calls m.history)
      ((m.setHalted .running).setTarget c) f.rerun :=
  ⟨⟨rfl, hp.interval, hp.timer⟩, { h.beside with }, rfl, rfl, rfl⟩

theorem CameFrom.congr {n : Nat} (h : CameFrom frames f m n) (hvm : m'.vm = m.vm)
    (henv : m'.env.1 = m.env.1) (hhist : m'.history = m.history) : CameFrom frames f m' n := by
  cases h with
  | intro hk hb hpause hp =>
    have hhalt : m'.state.halted = m.state.halted := congrArg (fun vm : VM => vm.state.halted) hvm
    rw [← hhalt] at hpause hp
    exact .intro hk hb hpause (Beside.congr hp hvm henv hhist)

theorem not_softHalted_of_natural (h : m.state.halted.natural) : ¬ SoftHalted m := by
  rintro (hs | hs) <;> rw [hs] at h <;> rcases h with h | h | h <;> cases h

/-! ## One line -/

/-- At a soft halt, what the last run was: it started from a snapshot that satisfies `P`. -/
def Remembered (frames : Trace) (P : Moment Nat → Prop) (timeline : List (Moment Nat))
    (lastRun : Nat) (m : Repl Nat) : Prop :=
  SoftHalted m → ∃ f, timeline[timeline.length - 1 - lastRun]? = some f ∧ P f ∧
    CameFrom frames f m lastRun

/-- A line that leaves the VM alone. -/
theorem Remembered.congr {lastRun : Nat} (h : Remembered frames P timeline lastRun m)
    (hvm : m'.vm = m.vm) (henv : m'.env.1 = m.env.1) (hhist : m'.history = m.history) :
    Remembered frames P timeline (lastRunAfter lastRun m m') m' := by
  have hsince : firedSince m m' = [] := by
    unfold firedSince
    rw [hhist]
    exact List.drop_length
  unfold lastRunAfter
  rw [if_pos hsince]
  intro hsoft
  have hhalt : m'.state.halted = m.state.halted := congrArg (fun vm : VM => vm.state.halted) hvm
  obtain ⟨f, hf, hP, hfrom⟩ := h (by
    unfold SoftHalted at hsoft ⊢
    rwa [hhalt] at hsoft)
  exact ⟨f, hf, hP, hfrom.congr hvm henv hhist⟩

/-- A run from a prompt. -/
theorem AtPrompt.remembered (h : AtPrompt (replayMode frames) timeline m)
    (hnat : ¬ m.state.halted.natural) (hP : ∀ f, Stands (replayMode frames) m f → P f) {fuel : Nat}
    {c : UInt64} {lastRun : Nat}
    (hr : runFrom (replayMode frames) fuel ((m.setHalted .running).setTarget c) =
      some (.prompt m')) :
    Remembered frames P (timeline ++ firedSince m m') (lastRunAfter lastRun m m') m' := by
  obtain ⟨-, f, hf, hstands⟩ := h.standing.resolve_left hnat
  have hs := hstands.shadows h c
  intro hsoft
  cases runFrom_ends hs hr with
  | halted hy _ hstop hbeside =>
    obtain ⟨hhalt, hn⟩ := plain_exit hs.off hy hstop
    exact absurd hsoft (not_softHalted_of_natural (hbeside.halted.trans hhalt ▸ hn))
  | @paused n k' r _ hk hb hpause hp hcount =>
    have hlen : (firedSince m m').length = n + 1 := hcount
    obtain rfl : m'.state.halted = r := hp.halted
    rw [lastRunAfter_eq hlen]
    refine ⟨f, ?_, hP f hstands, .intro hk hb hpause hp⟩
    rw [List.getLast?_eq_getElem?] at hf
    have hpos : 0 < timeline.length := by
      by_contra hzero
      rw [List.getElem?_eq_none (by omega)] at hf
      cases hf
    rw [List.length_append, hlen, List.getElem?_append_left (by omega), ← hf]
    congr 1
    omega

/-- **One line of the REPL.** -/
theorem Remembered.line {lastRun : Nat} (h : Remembered frames P timeline lastRun m)
    (hp : AtPrompt (replayMode frames) timeline m) {c : Command}
    (hP : ∀ t, c.RunsTo m t → ¬ m.state.halted.natural → ∀ f, Stands (replayMode frames) m f → P f)
    {fuel : Nat} (hm : command (replayMode frames) fuel m c = some (.prompt m')) :
    Remembered frames P (timelineAfter timeline m m' c) (lastRunAfter lastRun m m') m' := by
  cases command_cases hm with
  | kept _ htimeline =>
    rw [htimeline]
    exact h.congr rfl rfl rfl
  | ran ht hres hr =>
    rw [timelineAfter_run ht]
    have hnat := (debugResume_some hres).2
    exact hp.remembered hnat (hP _ ht hnat) hr
  | rewound _ hpos hn =>
    -- `back` leaves no soft halt
    obtain ⟨f, hf, hback⟩ := hp.backTo_eq hpos hn
    obtain ⟨-, hrun⟩ := hp.genuine f (List.mem_of_getElem? hf)
    intro hsoft
    rw [hback] at hsoft
    rcases hsoft with hs | hs <;> cases hrun.symm.trans hs

/-- **At every soft halt of every session, what the last run was.** Where it started satisfies `P`
if every line that runs the VM starts from such a snapshot. -/
theorem reached_cameFrom {bytes : List UInt8} {issued : Repl Nat → Command → Prop} {lastRun : Nat}
    (hP : ∀ m c t, issued m c → c.RunsTo m t → ¬ m.state.halted.natural →
      ∀ f, Stands (replayMode frames) m f → P f)
    (h : Reached (replayMode frames) bytes 0 issued timeline lastRun m) :
    Remembered frames P timeline lastRun m := by
  induction h with
  | start hstart =>
    obtain ⟨vm, hb, rfl⟩ := debugStart_eq_some hstart
    rintro (hs | hs) <;> cases (boot_running hb).1.symm.trans hs
  | command hreached hissued hm ih =>
    exact ih.line (reached_atPrompt hreached) (fun t ht => hP _ _ t hissued ht) hm

/-! ## Stepping as far again -/

/-- The same stop, off what the debugger keeps. -/
structure SameStop (m m' : Repl Nat) : Prop where
  visible : SameVisible m.vm m'.vm
  cursor  : m.env.1 = m'.env.1

/-- The step boundary was hit. -/
theorem boundary_of_pause_step {d : CmdDebug} {cycle : UInt64} {pc : UInt32}
    (h : d.pause cycle pc = some .step) : d.targetCycle ≠ uint64Max ∧ d.targetCycle ≤ cycle := by
  unfold CmdDebug.pause at h
  split at h
  · next hhit => exact hhit
  · split at h
    · cases h
    · cases h

theorem Beside.sameStop {pre pre' : List Call} {k : Machine Nat} (h : Beside pre m k)
    (h' : Beside pre' m' k) : SameStop m m' where
  visible := (Alike.sameVisible h).trans (Alike.sameVisible h').symm
  cursor := (show m.env.1 = k.env from h.env).trans (show m'.env.1 = k.env from h'.env).symm

/-- **Stepping as far as the last run did.** From a session that stands at `f`, running, with no
breakpoint armed, the step comes to the stop that the run from `f` came to. -/
theorem CameFrom.again {n : Nat} (h : CameFrom frames f m n) (hstep : m.state.halted = .step)
    {b : Repl Nat} (hb : AtPrompt (replayMode frames) timeline b)
    (hstands : Stands (replayMode frames) b f) (hrun : b.state.halted = .running)
    (hfree : b.env.2.breakpoints = ∅) {c : UInt64} (hc : c ≠ 0)
    (hcycle : b.state.cycleCount + c = m.state.cycleCount) (hmax : m.state.cycleCount ≠ uint64Max) :
    ∃ fuel m₂, command (replayMode frames) fuel b (.step c) = some (.prompt m₂) ∧
      SameStop m₂ m := by
  cases h with
  | @intro d k pre j hk hbefore hpause hp =>
    rw [hstep] at hpause hp
    obtain ⟨hoff, hle⟩ := boundary_of_pause_step hpause
    have hstop : k.state.cycleCount + 1 = m.state.cycleCount := hp.cycleCount.symm
    rw [hstop] at hle
    have hs := hstands.shadows hb (b.state.cycleCount + c)
    rw [hcycle] at hs
    -- short of the old boundary the new one is not hit either
    have hbefore' : StepLoop.Before (Pauses { b.env.2 with targetCycle := m.state.cycleCount })
        (Machine.cycle (replayEnv frames)) f.rerun j := by
      intro i u hi hu hpauses
      refine hbefore i u hi hu fun hnone => hpauses ?_
      unfold CmdDebug.pause at hnone ⊢
      split at hnone
      · cases hnone
      · next hshort =>
        have hlt : u.state.cycleCount + 1 < d.targetCycle :=
          UInt64.not_le.mp fun hge => hshort ⟨hoff, hge⟩
        rw [if_neg fun hhit => UInt64.not_le.mpr (UInt64.lt_of_lt_of_le hlt hle) hhit.2, hfree]
        rfl
    have hhit : CmdDebug.pause { b.env.2 with targetCycle := m.state.cycleCount }
        (k.state.cycleCount + 1) k.state.pc = some .step := by
      unfold CmdDebug.pause
      rw [hstop]
      exact if_pos ⟨hmax, UInt64.le_refl _⟩
    obtain ⟨m₂, hm₂, hpaused⟩ := runFrom_paused (replayMode frames) hs hk hbefore' hhit
    have hto : (Command.step c).RunsTo b m.state.cycleCount := ⟨hc, hcycle.symm⟩
    refine ⟨j + 1, m₂, ?_, Beside.sameStop hpaused hp⟩
    rw [command_resumed hto (debugResume_resumable (.inl hrun))]
    exact hm₂

/-! ## Continuing -/

/-- What two lines leave looks the same. -/
inductive SameReply : Reply Nat → Reply Nat → Prop
  | prompt {m m' : Repl Nat} : SameStop m m' → SameReply (.prompt m) (.prompt m')
  | diverged {e : TraceMismatch} {m m' : Repl Nat} :
      SameStop m m' → SameReply (.diverged e m) (.diverged e m')

/-- The boundary is off and there is nothing to break on. -/
theorem not_pauses_of_free {η : Type} {d : CmdDebug} (htarget : d.targetCycle = uint64Max)
    (hfree : d.breakpoints = ∅) (k : Machine η) : ¬ Pauses d k := by
  intro h
  refine h ?_
  unfold CmdDebug.pause
  rw [if_neg fun hhit => hhit.1 htarget, hfree]
  rfl

/-- A run that never pauses ends as the run without a debugger does. -/
theorem RunEnds.unpaused {η : Type} {io : ReplMode η} {d : CmdDebug} {pre : List Call} {m : Repl η}
    {k : Machine η} {reply : Reply η} (h : RunEnds io d pre m k reply)
    (hd : ∀ k : Machine η, ¬ Pauses d k) :
    ∃ y m', StepLoop.Leaves (Machine.cycle (plainEnv io)) k y ∧ Beside pre m' y.machine ∧
      (reply = .prompt m' ∧ (∃ r, y.stop = .returned r) ∨
        ∃ e, reply = .diverged e m' ∧ y.stop = .threw e) := by
  cases h with
  | @paused n k' r m' _ _ hp _ _ =>
    refine absurd (fun hnone => ?_) (hd k')
    cases hnone.symm.trans hp
  | @halted n y r m' hy _ hstop hbeside =>
    exact ⟨y, m', ⟨n, hy⟩, hbeside, .inl ⟨rfl, r, hstop⟩⟩
  | @diverged n y e m' hy _ hstop hbeside =>
    exact ⟨y, m', ⟨n, hy⟩, hbeside, .inr ⟨e, rfl, hstop⟩⟩

/-- Two runs that never pause, beside the same run without a debugger, end alike. -/
theorem sameReply_of_shadows {d d' : CmdDebug} (hd : ∀ k : Machine Nat, ¬ Pauses d k)
    (hd' : ∀ k : Machine Nat, ¬ Pauses d' k) {pre pre' : List Call} {u v : Repl Nat}
    {k : Machine Nat} (hu : Shadows d pre u k) (hv : Shadows d' pre' v k) {fuel : Nat}
    {reply : Reply Nat} (hr : runFrom (replayMode frames) fuel u = some reply) :
    ∃ fuel' reply', runFrom (replayMode frames) fuel' v = some reply' ∧ SameReply reply reply' := by
  obtain ⟨y, a, hy, hbeside, hend⟩ := (runFrom_ends hu hr).unpaused hd
  obtain ⟨fuel', reply', hr'⟩ := runFrom_total hv hy
  obtain ⟨y', b, hy', hbeside', hend'⟩ := (runFrom_ends hv hr').unpaused hd'
  obtain rfl := StepLoop.Leaves.unique hy hy'
  have hsame : SameStop a b := hbeside.sameStop hbeside'
  refine ⟨fuel', reply', hr', ?_⟩
  rcases hend with ⟨rfl, r, hstop⟩ | ⟨e, rfl, hstop⟩ <;>
    rcases hend' with ⟨rfl, r', hstop'⟩ | ⟨e', rfl, hstop'⟩
  · exact .prompt hsame
  · cases hstop.symm.trans hstop'
  · cases hstop.symm.trans hstop'
  · obtain rfl : e = e' := Stop.threw.inj (hstop.symm.trans hstop')
    exact .diverged hsame

/-- The instruction fetched at the stop and not dispatched would leave registers, flags, pc and
memory as they are. -/
def IdleInFlight (m : Repl Nat) : Prop :=
  ∃ i, decode (memLoadU32 m.mem (m.state.pc - 4)) = some i ∧
    (i.effect m.mem m.state.cpu = .next m.state.cpu ∨
      ∃ addr v, i.effect m.mem m.state.cpu = .write addr v ∧ memStoreU32 m.mem addr v = m.mem)

/-- The run that dispatches it is where the one that drops it is. -/
theorem idle_cycle (frames : Trace) (hidle : IdleInFlight m) {pre : List Call} {r : HaltReason}
    {k : Machine Nat} (hp : Paused pre r m k) (hoff : k.state.snapInterval = 0) :
    ∃ k', k.cycle (replayEnv frames) = .ok k' ∧ k'.state = k.advance.state ∧ k'.mem = k.mem ∧
      k'.env = k.env := by
  obtain ⟨i, hd, heffect⟩ := hidle
  have hmem : m.mem = k.mem := funext fun a => hp.mem a (Set.notMem_empty a)
  have hcpu : m.state.cpu = k.advance.state.cpu := hp.cpu
  have hpc : m.state.pc - 4 = k.state.pc := by
    rw [show m.state.pc = k.state.pc + 4 from hp.pc, UInt32.add_sub_cancel]
  rw [hmem, hpc] at hd
  rw [hmem, hcpu] at heffect
  rw [cycle_off (replayEnv frames) hoff]
  unfold Machine.retire Machine.fetched
  rw [hd]
  change ∃ k', (k.advance.dispatched _).apply _ (i.effect k.mem k.advance.state.cpu) = _ ∧ _
  rcases heffect with he | ⟨addr, v, he, hsame⟩
  · rw [he]
    exact ⟨_, rfl, rfl, rfl, rfl⟩
  · rw [he]
    exact ⟨_, rfl, rfl, hsame, rfl⟩

/-- A machine that looks like a fresh one is beside it. -/
theorem beside_of_sameVisible {u : Repl Nat} {k : Machine Nat} (h : SameVisible u.vm k.vm)
    (henv : u.env.1 = k.env) (hfresh : k.history = []) : Beside (calls u.history) u k where
  cpu := by
    change (⟨u.state.regs, u.state.pc, u.state.flags⟩ : Cpu) =
      ⟨k.state.regs, k.state.pc, k.state.flags⟩
    rw [h.regs, h.pc, h.flags]
  cycleCount := h.cycleCount
  sp := h.sp
  halted := h.halted
  mem := fun a _ => congrFun h.mem a
  env := henv
  calls := by
    rw [hfresh]
    exact (List.append_nil _).symm

theorem rerun_running {n : Nat} {k : Machine Nat}
    (hk : StepLoop.after (Machine.cycle (replayEnv frames)) n f.rerun = .ok k) :
    k.state.halted = .running :=
  StepLoop.after_invariant (I := fun u : Machine Nat => u.state.halted = .running)
    (fun _ _ hr hc => cycle_running hr hc) rfl hk

/-- **Running on from further back.** From a session that stands at `f`, with no breakpoint armed,
a run without step boundary gets to where `m` goes on from, if the run from `f` came to `m` and the
instruction in flight there is idle. -/
theorem CameFrom.overtakes {n : Nat} (h : CameFrom frames f m n) (hidle : IdleInFlight m)
    {l : Moment Nat} (hl : Stands (replayMode frames) m l) {b : Repl Nat}
    (hb : AtPrompt (replayMode frames) timeline b) (hstands : Stands (replayMode frames) b f)
    (hfree : b.env.2.breakpoints = ∅) :
    ∃ (u : Repl Nat) (j : Nat),
      StepLoop.after (Machine.cycle (debugEnv (replayMode frames))) j
        ((b.setHalted .running).setTarget uint64Max) = .ok u ∧
      Shadows { b.env.2 with targetCycle := uint64Max } (calls u.history) u l.rerun := by
  cases h with
  | @intro d k pre j hk hbefore hpause hp =>
    have hoff : k.state.snapInterval = 0 := after_off rfl hk
    obtain ⟨k', hk', hstate, hmem, henv⟩ := idle_cycle frames hidle hp hoff
    have hnever : ∀ k : Machine Nat, ¬ Pauses { b.env.2 with targetCycle := uint64Max } k :=
      not_pauses_of_free rfl hfree
    obtain ⟨u, hu, hshadow⟩ := StepLoop.after_before
      (fun _ _ hs hp => shadows_turn (replayMode frames) hs hp) (hstands.shadows hb uint64Max)
      ((StepLoop.after_succ_right hk).trans hk') fun _ v _ _ => hnever v
    have hrun : k.state.halted = .running := rerun_running hk
    have hdispatched : SameVisible k'.vm k.advance.vm := .of_state hstate hmem
    have hpast : SameVisible k'.vm (k.advance.setHalted .running).vm :=
      hdispatched.trans ⟨rfl, rfl, rfl, rfl, rfl, hrun, rfl⟩
    have hstop : SameVisible (m.setHalted .running).vm (k.advance.setHalted .running).vm :=
      Alike.sameVisible (hp.setHalted .running)
    have hgoes : SameVisible (m.setHalted .running).vm l.rerun.vm := Alike.sameVisible hl.beside
    refine ⟨u, j + 1, hu, hshadow.toStepping, ?_, rfl, hshadow.target, hshadow.breakpoints⟩
    refine beside_of_sameVisible ?_ ?_ rfl
    · exact (Alike.sameVisible hshadow.beside).trans (hpast.trans (hstop.symm.trans hgoes))
    · have hcursor : u.env.1 = k'.env := hshadow.beside.env
      have hcursor' : m.env.1 = k.env := hp.env
      rw [hcursor, henv, ← hcursor']
      exact hl.cursor

/-- **Continuing after going back.** From a session that stands at `f`, running, with no breakpoint
armed, `continue` leaves what it leaves from the stop. -/
theorem CameFrom.continues {timeline' : List (Moment Nat)} {n : Nat}
    (h : CameFrom frames f m n) (hstep : m.state.halted = .step)
    (hm : AtPrompt (replayMode frames) timeline' m) (hfree : m.env.2.breakpoints = ∅)
    (hidle : IdleInFlight m) {l : Moment Nat} (hl : Stands (replayMode frames) m l)
    {b : Repl Nat} (hb : AtPrompt (replayMode frames) timeline b)
    (hstands : Stands (replayMode frames) b f) (hrun : b.state.halted = .running)
    (hfree' : b.env.2.breakpoints = ∅) :
    (∀ fuel reply, command (replayMode frames) fuel m .continue = some reply →
      ∃ fuel' reply', command (replayMode frames) fuel' b .continue = some reply' ∧
        SameReply reply reply') ∧
    ∀ fuel reply, command (replayMode frames) fuel b .continue = some reply →
      ∃ fuel' reply', command (replayMode frames) fuel' m .continue = some reply' ∧
        SameReply reply reply' := by
  obtain ⟨u, j, hu, hshadow⟩ := h.overtakes hidle hl hb hstands hfree'
  have hsoft := hl.shadows hm uint64Max
  have hfresh := (hstands.shadows hb uint64Max).toStepping
  have hfromStop : ∀ fuel, command (replayMode frames) fuel m .continue =
      runFrom (replayMode frames) fuel ((m.setHalted .running).setTarget uint64Max) :=
    fun fuel => command_resumed rfl (debugResume_resumable (.inr (.inl hstep)))
  have hfromBack : ∀ fuel, command (replayMode frames) fuel b .continue =
      runFrom (replayMode frames) fuel ((b.setHalted .running).setTarget uint64Max) :=
    fun fuel => command_resumed rfl (debugResume_resumable (.inl hrun))
  have hnever : ∀ k : Machine Nat, ¬ Pauses { m.env.2 with targetCycle := uint64Max } k :=
    not_pauses_of_free rfl hfree
  have hnever' : ∀ k : Machine Nat, ¬ Pauses { b.env.2 with targetCycle := uint64Max } k :=
    not_pauses_of_free rfl hfree'
  constructor
  · intro fuel reply hr
    rw [hfromStop] at hr
    obtain ⟨fuel', reply', hr', hsame⟩ := sameReply_of_shadows hnever hnever' hsoft hshadow hr
    refine ⟨j + fuel', reply', ?_, hsame⟩
    rw [hfromBack, runFrom_after hfresh hu, hr']
  · intro fuel reply hr
    rw [hfromBack] at hr
    obtain ⟨fuel', hr'⟩ := runFrom_rest hfresh hu hr
    obtain ⟨fuel'', reply'', hr'', hsame⟩ :=
      sameReply_of_shadows hnever' hnever hshadow hsoft hr'
    exact ⟨fuel'', reply'', (hfromStop fuel'').trans hr'', hsame⟩

end Rerun

/-- What rewind and re-run asks of `n` at a stop. -/
structure Recovers (frames : Trace) (m : Repl Nat) (n : UInt64) : Prop where
  /-- `back n`, `step n` comes back to the stop. -/
  steps : ∃ fuel m₁ m₂, command (replayMode frames) fuel m (.back n) = some (.prompt m₁) ∧
    command (replayMode frames) fuel m₁ (.step n) = some (.prompt m₂) ∧ SameStop m₂ m
  /-- `back n`, `continue` leaves what `continue` leaves. -/
  continues : ∀ fuel₀ m₁, command (replayMode frames) fuel₀ m (.back n) = some (.prompt m₁) →
    (∀ fuel reply, command (replayMode frames) fuel m .continue = some reply →
      ∃ fuel' reply', command (replayMode frames) fuel' m₁ .continue = some reply' ∧
        SameReply reply reply') ∧
    ∀ fuel reply, command (replayMode frames) fuel m₁ .continue = some reply →
      ∃ fuel' reply', command (replayMode frames) fuel' m .continue = some reply' ∧
        SameReply reply reply'

/-- **Rewind, then run again**, from a step boundary with no breakpoint armed. If the run that came
to the stop took `n` cycles, the instruction in flight is idle, and the cycle is not the one that
reads as no boundary, `back n` and `step n` come back to the stop, and `back n` and `continue` leave
what `continue` does. -/
theorem rerun_recovers (bytes : List UInt8) (frames : Trace) (timeline : List (Moment Nat))
    (lastRun : Nat) (m : Repl Nat)
    (h : Reached (replayMode frames) bytes 0 AnyLine timeline lastRun m)
    (hstep : m.state.halted = .step) (hfree : m.env.2.breakpoints = ∅) (n : UInt64)
    (hpos : 1 ≤ n.toNat) (hn : n.toNat ≤ m.env.2.historyIndex) (hrun : n.toNat = lastRun)
    (hmax : m.state.cycleCount ≠ uint64Max) (hidle : IdleInFlight m) : Recovers frames m n := by
  have hp := reached_atPrompt h
  obtain ⟨f, hf, -, hfrom⟩ :=
    reached_cameFrom (P := fun _ => True) (fun _ _ _ _ _ _ _ _ => trivial) h (.inl hstep)
  obtain ⟨f', hf', hstands, hprompt⟩ := hp.back hpos hn
  obtain ⟨f'', hf'', hback⟩ := hp.backTo_eq hpos hn
  rw [← hrun] at hf hfrom
  obtain rfl : f' = f := Option.some.inj (hf'.symm.trans hf)
  obtain rfl : f' = f'' := Option.some.inj (hf'.symm.trans hf'')
  have hrunning : (backTo (replayMode frames) n.toNat m).state.halted = .running := by
    rw [hback]
    exact (hp.genuine f' (List.mem_of_getElem? hf)).2
  have hfree' : (backTo (replayMode frames) n.toNat m).env.2.breakpoints = ∅ := by
    rw [hback]
    exact hfree
  have hne : n ≠ 0 := by
    rintro rfl
    exact absurd hpos (by decide)
  obtain ⟨l, hlast, hl⟩ : ∃ l, timeline.getLast? = some l ∧ Stands (replayMode frames) m l := by
    rcases hp.standing with hnat | ⟨-, hl⟩
    · exact absurd (Or.inl hstep) (not_softHalted_of_natural hnat)
    · exact hl
  have hcycle := hp.back_cycle hpos hn
  rw [UInt64.ofNat_toNat] at hcycle
  refine ⟨?_, fun fuel₀ m₁ hm₁ => ?_⟩
  · obtain ⟨fuel, m₂, hm₂, hsame⟩ :=
      hfrom.again hstep hprompt hstands hrunning hfree' hne hcycle hmax
    exact ⟨fuel, _, m₂, rfl, hm₂, hsame⟩
  · cases hm₁
    exact hfrom.continues hstep hp hfree hidle hl hprompt hstands hrunning hfree'

/-- `JUMP 4; HALT`: the jump goes where pc already is. -/
def jumpToNext : List UInt8 := imageOf [encode 0x07 0 0 4, 0]

/-- One step of it, the jump in flight, taken back and taken again. -/
theorem rerun_recovers_jumpToNext :
    ∃ m : Repl Nat, m.state.halted = .step ∧ m.state.cycleCount = 1 ∧ Recovers [] m 1 := by
  have hrun : ((debugStart (replayMode []) jumpToNext 0).bind fun m₀ =>
      (session (replayMode []) 1 m₀ [.step 1]).map fun m =>
        ((m.state.halted, decide (m.env.2.breakpoints = ∅), m.env.2.historyIndex),
          (m.state.cycleCount, m.state.pc, memLoadU32 m.mem (m.state.pc - 4)),
          (firedSince m₀ m).length)) =
      some ((.step, true, 1), (1, 4, encode 0x07 0 0 4), 1) := by
    decide +kernel
  obtain ⟨m₀, hm₀, hsession⟩ := Option.bind_eq_some_iff.mp hrun
  obtain ⟨m, hm, hseen⟩ := Option.map_eq_some_iff.mp hsession
  simp only [Prod.mk.injEq, decide_eq_true_eq] at hseen
  obtain ⟨⟨hstep, hfree, hindex⟩, ⟨hcycle, hpc, hword⟩, hfired⟩ := hseen
  obtain ⟨u, hu, hnil⟩ := session_cons hm
  cases hnil
  have hstarted : Reached (replayMode []) jumpToNext 0 AnyLine _ _ m₀ := .start hm₀
  have hreached := hstarted.command trivial hu
  have hlast : lastRunAfter 0 m₀ m = 1 := lastRunAfter_eq hfired 0
  have hidle : IdleInFlight m := by
    refine ⟨.jump 4, ?_, .inl ?_⟩
    · rw [hword]
      rfl
    · change Effect.next ⟨m.state.regs, 4, m.state.flags⟩ =
        .next ⟨m.state.regs, m.state.pc, m.state.flags⟩
      rw [hpc]
  exact ⟨m, hstep, hcycle, rerun_recovers jumpToNext [] _ _ m hreached hstep hfree 1 (by decide)
    (by rw [hindex]; decide) hlast.symm (by rw [hcycle]; decide) hidle⟩

/-- `LI R0, 5; LI R1, 6; HALT`. -/
def loadTwice : List UInt8 := imageOf [encode 0x0B 0 0 5, encode 0x0B 1 0 6, 0]

/-- Its recording has no frames. -/
theorem loadTwice_frames :
    (cmdRecord loadTwice (fun _ => 0) (fun _ => 0) 3).bind RecordOutcome.frames = some [] := by
  decide +kernel

/-- **A re-run loses the instruction in flight where it starts**: after `step 2`, `back 1` and
`step 1`, R0 is 0, and 5 before. -/
theorem rerun_loses_instruction :
    ¬ ∀ (bytes : List UInt8) (stdin rng : Nat → UInt32) (fuel : Nat) (r : HaltReason) (vm : VM)
      (frames : Trace), cmdRecord bytes stdin rng fuel = some (.halted r vm frames) →
        ∀ (timeline : List (Moment Nat)) (lastRun : Nat) (m : Repl Nat),
          Reached (replayMode frames) bytes 0 AnyLine timeline lastRun m →
            m.state.halted = .step → m.env.2.breakpoints = ∅ → ∀ n : UInt64, 1 ≤ n.toNat →
              n.toNat ≤ m.env.2.historyIndex → Recovers frames m n := by
  intro hall
  obtain ⟨r, vm, hrec⟩ := halted_of_frames loadTwice_frames
  have hrun : ((debugStart (replayMode []) loadTwice 0).bind fun m =>
      session (replayMode []) 2 m [.step 2]).map (fun m =>
        (m.state.halted, decide (m.env.2.breakpoints = ∅), m.env.2.historyIndex,
          m.state.regs.get 0,
          (session (replayMode []) 1 m [.back 1, .step 1]).map fun m₂ => m₂.state.regs.get 0)) =
      some (.step, true, 2, 5, some 0) := by
    decide +kernel
  obtain ⟨m, hm, hseen⟩ := Option.map_eq_some_iff.mp hrun
  obtain ⟨m₀, hm₀, hsession⟩ := Option.bind_eq_some_iff.mp hm
  simp only [Prod.mk.injEq, decide_eq_true_eq] at hseen
  obtain ⟨hstep, hfree, hindex, hfive, hagain⟩ := hseen
  obtain ⟨timeline, lastRun, hreached⟩ := reached_session (.start hm₀)
    (fun _ _ _ => trivial) hsession
  obtain ⟨fuel, m₁, m₂, hback, hforth, hsame⟩ := (hall _ _ _ 3 r vm [] hrec timeline lastRun m
    hreached hstep hfree 1 (by decide) (by rw [hindex]; decide)).steps
  cases hback
  obtain ⟨u, hu, hzero⟩ := Option.map_eq_some_iff.mp hagain
  obtain ⟨u₁, hu₁, hrest⟩ := session_cons hu
  obtain rfl := Reply.prompt.inj (Option.some.inj hu₁)
  obtain ⟨u₂, hu₂, hnil⟩ := session_cons hrest
  cases hnil
  obtain rfl : m₂ = u := Reply.prompt.inj (command_unique hforth hu₂)
  have hregs : m₂.state.regs = m.state.regs := hsame.visible.regs
  rw [hregs, hfive] at hzero
  exact absurd hzero (by decide)

end RetroVM

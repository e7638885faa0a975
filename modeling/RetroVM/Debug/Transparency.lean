import RetroVM.Debug.Follow
import RetroVM.Trace.Fidelity

/-!
# Debugger transparency (`main.cpp`, `debug_resume`; `tests/debug.sh`)

A soft halt stops the VM with an instruction fetched and not dispatched, and `debug_resume` does not
take the fetch back, so a line that runs the VM from a soft halt loses that instruction. A session
that never does so is on the track of the replay: at the start of it, at a soft halt with the
replay one fetch behind, or at its end.

Results:
* `OnTrack.line`: a line that resumes no soft halt stays on the track.
* `OnTrack.returns`: it comes back to a prompt.
* **`debugger_transparent_without_resume`**, and `resume_loses_instruction`, where it fails.
-/

namespace RetroVM

variable {η : Type}

/-! ## Lines -/

/-- Stopped by the sink. -/
def SoftHalted (m : Repl η) : Prop := m.state.halted = .step ∨ m.state.halted = .breakpoint

/-- A line that steps, continues, sets or deletes a breakpoint. -/
def ForwardLine (_ : Repl η) : Command → Prop
  | .back _ | .save => False
  | _ => True

/-- Such a line, if it does not run the VM from a soft halt. -/
def NoSoftResume (m : Repl η) : Command → Prop
  | .step n => n = 0 ∨ ¬ SoftHalted m
  | .continue => ¬ SoftHalted m
  | .back _ | .save => False
  | _ => True

/-! ## How a run without snapshots ends -/

/-- A run that returns halted naturally. -/
theorem plain_exit {ε : Type} {E : Env ε} {k : Machine ε} (hoff : k.state.snapInterval = 0)
    {n : Nat} {y : Exit ε} (hy : StepLoop.after (Machine.cycle E) n k = .error y) {r : HaltReason}
    (hr : y.stop = .returned r) : y.machine.state.halted = r ∧ r.natural := by
  obtain ⟨j, u, -, hu, hlast⟩ := StepLoop.after_error_last hy
  rw [cycle_off E (after_off hoff hu)] at hlast
  rcases retire_exit hlast with ⟨e, he⟩ | ⟨r', hr', hhalt, hnat, -⟩
  · cases hr.symm.trans he
  · obtain rfl : r = r' := Stop.returned.inj (hr.symm.trans hr')
    exact ⟨hhalt, hnat⟩

/-! ## On the track -/

/-- Where a session stands, relative to the run without a debugger from `k0`. -/
inductive OnTrack (E : Env η) (k0 : Machine η) (pre : List Call) (m : Repl η) : Prop
  | base : m.state.halted = .running → Beside pre m k0 → OnTrack E k0 pre m
  | paused {n : Nat} {k : Machine η} {r : HaltReason} :
      StepLoop.after (Machine.cycle E) n k0 = .ok k → r = .step ∨ r = .breakpoint →
        Paused pre r m k → OnTrack E k0 pre m
  | ended {n : Nat} {y : Exit η} {r : HaltReason} :
      StepLoop.after (Machine.cycle E) n k0 = .error y → y.stop = .returned r →
        m.state.halted.natural → Beside pre m y.machine → OnTrack E k0 pre m

section Track

variable {io : ReplMode η} {k0 : Machine η} {pre : List Call} {m m' : Repl η}

theorem Beside.congr {k : Machine η} (h : Beside pre m k) (hvm : m'.vm = m.vm)
    (henv : m'.env.1 = m.env.1) (hhist : m'.history = m.history) : Beside pre m' k where
  cpu := (congrArg (fun vm : VM => vm.state.cpu) hvm).trans h.cpu
  cycleCount := (congrArg (fun vm : VM => vm.state.cycleCount) hvm).trans h.cycleCount
  sp := (congrArg (fun vm : VM => vm.state.sp) hvm).trans h.sp
  halted := (congrArg (fun vm : VM => vm.state.halted) hvm).trans h.halted
  mem := fun a ha => (congrArg (fun vm : VM => vm.mem a) hvm).trans (h.mem a ha)
  env := henv.trans h.env
  calls := hhist ▸ h.calls

theorem OnTrack.congr {E : Env η} (h : OnTrack E k0 pre m) (hvm : m'.vm = m.vm)
    (henv : m'.env.1 = m.env.1) (hhist : m'.history = m.history) : OnTrack E k0 pre m' := by
  have hhalt : m'.state.halted = m.state.halted := congrArg (fun vm : VM => vm.state.halted) hvm
  cases h with
  | base hr hb => exact .base (hhalt.trans hr) (hb.congr hvm henv hhist)
  | paused hk hr hp => exact .paused hk hr (Beside.congr hp hvm henv hhist)
  | ended hy hr hnat hb => exact .ended hy hr (hhalt ▸ hnat) (hb.congr hvm henv hhist)

/-- Off a soft halt a resumed session is at the start of the track. -/
theorem OnTrack.resumed {E : Env η} (h : OnTrack E k0 pre m) (hsoft : ¬ SoftHalted m)
    (hnat : ¬ m.state.halted.natural) : m.state.halted = .running ∧ Beside pre m k0 := by
  cases h with
  | base hr hb => exact ⟨hr, hb⟩
  | paused hk hr hp =>
    have hhalt := hp.halted
    refine absurd ?_ hsoft
    rcases hr with rfl | rfl
    · exact .inl hhalt
    · exact .inr hhalt
  | ended _ _ hn _ => exact absurd hn hnat

/-- The run a line starts from the start of the track. -/
theorem shadows_target {timeline : List (Moment η)} (h : AtPrompt io timeline m)
    (hr : m.state.halted = .running) (hb : Beside pre m k0) (hoff : k0.state.snapInterval = 0)
    (c : UInt64) : Shadows { m.env.2 with targetCycle := c } pre (m.setTarget c) k0 :=
  ⟨⟨hr, h.interval, h.timer⟩, { hb with }, hoff, rfl, rfl⟩

/-- A run from the start of the track stays on it. -/
theorem OnTrack.ran {d : CmdDebug} (hs : Shadows d pre m k0) {reply : Reply η}
    (hr : RunEnds io d pre m k0 reply) (hm : reply = .prompt m') :
    OnTrack (plainEnv io) k0 pre m' := by
  cases hr with
  | paused hk hb hpause hp _ =>
    cases hm
    exact .paused hk (pause_ne_running hpause) hp
  | halted hy hb hstop hbeside =>
    cases hm
    obtain ⟨hhalt, hnat⟩ := plain_exit hs.off hy hstop
    refine .ended hy hstop ?_ hbeside
    rw [hbeside.halted, hhalt]
    exact hnat
  | diverged => cases hm

/-- A line that may run the VM finds no soft halt. -/
theorem NoSoftResume.of_runsTo {c : Command} (h : NoSoftResume m c) {t : UInt64}
    (ht : c.RunsTo m t) : ¬ SoftHalted m := by
  cases c with
  | step n => exact h.resolve_left ht.1
  | «continue» => exact h
  | _ => exact absurd ht id

/-- **A line that resumes no soft halt stays on the track.** -/
theorem OnTrack.line (io : ReplMode η) {timeline : List (Moment η)}
    (h : OnTrack (plainEnv io) k0 pre m) (hp : AtPrompt io timeline m)
    (hoff : k0.state.snapInterval = 0) {c : Command} (hc : NoSoftResume m c) {fuel : Nat}
    (hm : command io fuel m c = some (.prompt m')) : OnTrack (plainEnv io) k0 pre m' := by
  cases command_cases hm with
  | kept => exact h.congr rfl rfl rfl
  | @ran t _ ht hres hr =>
    obtain ⟨hrun, hb⟩ := h.resumed (hc.of_runsTo ht) (debugResume_some hres).2
    have hs := shadows_target hp hrun hb hoff t
    rw [← Option.some.inj ((debugResume_running hrun).symm.trans hres)] at hr
    exact OnTrack.ran hs (runFrom_ends hs hr) rfl
  | rewound hback =>
    subst hback
    exact absurd hc id

/-- **It comes back to a prompt**, if the run without a debugger returns. -/
theorem OnTrack.returns (io : ReplMode η) {timeline : List (Moment η)}
    (h : OnTrack (plainEnv io) k0 pre m) (hp : AtPrompt io timeline m)
    (hoff : k0.state.snapInterval = 0) {c : Command} (hc : NoSoftResume m c) {y : Exit η}
    {r : HaltReason} (hy : StepLoop.Leaves (Machine.cycle (plainEnv io)) k0 y)
    (hr : y.stop = .returned r) : ∃ fuel m', command io fuel m c = some (.prompt m') := by
  have hruns : ∀ t, c.RunsTo m t → ∃ fuel m', command io fuel m c = some (.prompt m') := by
    intro t ht
    by_cases hnat : m.state.halted.natural
    · exact ⟨0, m, command_refused ht (debugResume_natural hnat)⟩
    · obtain ⟨hrun, hb⟩ := h.resumed (hc.of_runsTo ht) hnat
      have hs := shadows_target hp hrun hb hoff t
      obtain ⟨fuel, reply, hreply⟩ := runFrom_total hs hy
      have hline : command io fuel m c = _ := command_resumed ht (debugResume_running hrun)
      cases runFrom_ends hs hreply with
      | paused => exact ⟨fuel, _, hline.trans hreply⟩
      | halted => exact ⟨fuel, _, hline.trans hreply⟩
      | diverged hy' _ hthrew _ =>
        obtain rfl := StepLoop.Leaves.unique hy ⟨_, hy'⟩
        cases hr.symm.trans hthrew
  cases c with
  | step n =>
    by_cases hn : n = 0
    · exact ⟨0, m, if_pos hn⟩
    · exact hruns _ ⟨hn, rfl⟩
  | «continue» => exact hruns _ rfl
  | back n => exact absurd hc id
  | breakpoint addr => exact ⟨0, _, rfl⟩
  | breakpointDelete addr => exact ⟨0, _, rfl⟩
  | save => exact absurd hc id

/-- The calls of a session on the track are a prefix of those of the whole run. -/
theorem OnTrack.calls_prefix {E : Env η} (h : OnTrack E k0 [] m) {y : Exit η}
    (hy : StepLoop.Leaves (Machine.cycle E) k0 y) :
    calls m.history <+: calls y.machine.history := by
  have grows : ∀ {k : Machine η} {n : Nat}, StepLoop.after (Machine.cycle E) n k0 = .ok k →
      calls k.history <+: calls y.machine.history := by
    intro k n hk
    obtain ⟨d, hd⟩ := StepLoop.Leaves.rest hk hy
    have := after_history E k d
    rw [hd] at this
    exact this.filterMap _
  cases h with
  | base _ hb =>
    have hcalls := hb.calls
    simp only [List.nil_append] at hcalls
    exact hcalls ▸ grows (n := 0) rfl
  | paused hk _ hp =>
    have hcalls := hp.calls
    simp only [List.nil_append, setHalted_history, advance_history] at hcalls
    exact hcalls ▸ grows hk
  | ended hy' _ _ hb =>
    obtain rfl := StepLoop.Leaves.unique hy ⟨_, hy'⟩
    have hcalls := hb.calls
    simp only [List.nil_append] at hcalls
    exact hcalls ▸ List.prefix_rfl

end Track

/-! ## Steps add up -/

/-- A sum of steps that does not wrap around. -/
theorem toNat_add_of_lt {a b : UInt64} (hab : a.toNat + b.toNat < 2 ^ 64) :
    (a + b).toNat = a.toNat + b.toNat := by
  rw [UInt64.toNat_add, Nat.mod_eq_of_lt hab]

theorem add_ne_zero_of_lt {a b : UInt64} (hab : a.toNat + b.toNat < 2 ^ 64) (ha : a ≠ 0) :
    a + b ≠ 0 := by
  intro h0
  have hsum : a.toNat + b.toNat = 0 := (toNat_add_of_lt hab).symm.trans (congrArg UInt64.toNat h0)
  exact ha (UInt64.toNat.inj (Nat.eq_zero_of_add_eq_zero_right hsum))

/-- A step boundary further on pauses no earlier. -/
theorem pauses_of_later {d : CmdDebug} {a b : UInt64} (hab : a.toNat + b.toNat < 2 ^ 64)
    {k : Machine η} (h : Pauses { d with targetCycle := a + b } k) :
    Pauses { d with targetCycle := a } k := by
  have hsum := toNat_add_of_lt hab
  unfold Pauses CmdDebug.pause at h ⊢
  by_cases hstep : a + b ≠ uint64Max ∧ k.state.cycleCount + 1 ≥ a + b
  · obtain ⟨hoff, hle⟩ := hstep
    rw [ge_iff_le, UInt64.le_iff_toNat_le, hsum] at hle
    have hmax : uint64Max.toNat = 2 ^ 64 - 1 := by decide
    have hne : a ≠ uint64Max := by
      rintro rfl
      refine hoff (UInt64.toNat.inj ?_)
      omega
    have hge : k.state.cycleCount + 1 ≥ a := by
      rw [ge_iff_le, UInt64.le_iff_toNat_le]
      omega
    rw [if_pos ⟨hne, hge⟩]
    exact Option.some_ne_none _
  · simp only [if_neg hstep] at h
    split
    · exact Option.some_ne_none _
    · exact h

section Additive

variable {io : ReplMode η} {k0 : Machine η} {pre : List Call} {m m₁ m₂ m₃ : Repl η}
  {timeline : List (Moment η)} {a b : UInt64} {fuel₁ fuel₂ fuel₃ : Nat}

theorem command_step_zero (fuel : Nat) : command io fuel m (.step 0) = some (.prompt m) := by
  simp [command]

theorem command_step_natural (h : m.state.halted.natural) (n : UInt64) (fuel : Nat) :
    command io fuel m (.step n) = some (.prompt m) := by
  by_cases hn : n = 0
  · rw [hn, command_step_zero]
  · exact command_refused ⟨hn, rfl⟩ (debugResume_natural h)

/-- A step from the start of the track. -/
theorem OnTrack.step_ends (hp : AtPrompt io timeline m) (hr : m.state.halted = .running)
    (hb : Beside pre m k0) (hoff : k0.state.snapInterval = 0) (hzero : k0.state.cycleCount = 0)
    (ha : a ≠ 0) (h : command io fuel₁ m (.step a) = some (.prompt m₁)) :
    RunEnds io { m.env.2 with targetCycle := a } pre (m.setTarget a) k0 (.prompt m₁) := by
  have hc : m.state.cycleCount + a = a := by
    rw [hb.cycleCount, hzero, UInt64.zero_add]
  have hto : (Command.step a).RunsTo m a := ⟨ha, hc.symm⟩
  rw [command_resumed hto (debugResume_running hr)] at h
  exact runFrom_ends (shadows_target hp hr hb hoff a) h

/-- **Steps add up**, as long as neither resumes a soft halt. -/
theorem OnTrack.step_add (io : ReplMode η) (h : OnTrack (plainEnv io) k0 pre m)
    (hp : AtPrompt io timeline m) (hoff : k0.state.snapInterval = 0)
    (hzero : k0.state.cycleCount = 0) (hab : a.toNat + b.toNat < 2 ^ 64)
    (hsoft : NoSoftResume m (.step a))
    (h₁ : command io fuel₁ m (.step a) = some (.prompt m₁))
    (hsoft₁ : NoSoftResume m₁ (.step b))
    (h₂ : command io fuel₂ m₁ (.step b) = some (.prompt m₂))
    (h₃ : command io fuel₃ m (.step (a + b)) = some (.prompt m₃)) : SameVisible m₂.vm m₃.vm := by
  have same : ∀ {u v : Repl η}, u = v → SameVisible u.vm v.vm := by
    rintro u v rfl
    exact ⟨rfl, rfl, rfl, rfl, rfl, rfl, rfl⟩
  by_cases ha : a = 0
  · subst ha
    obtain rfl : m = m₁ := Reply.prompt.inj (Option.some.inj ((command_step_zero _).symm.trans h₁))
    rw [UInt64.zero_add] at h₃
    exact same (Reply.prompt.inj (command_unique h₂ h₃))
  by_cases hnat : m.state.halted.natural
  · rw [command_step_natural hnat] at h₁ h₃
    cases h₁
    cases h₃
    rw [command_step_natural hnat] at h₂
    cases h₂
    exact same rfl
  obtain ⟨hr, hb⟩ := h.resumed (hsoft.resolve_left ha) hnat
  have hone := OnTrack.step_ends hp hr hb hoff hzero ha h₁
  have hboth := OnTrack.step_ends hp hr hb hoff hzero (add_ne_zero_of_lt hab ha) h₃
  cases hone with
  | paused hk hbef hpause hpaused hcount =>
    -- the first step stopped softly, so the second is `step 0`
    have hb0 : b = 0 := by
      refine hsoft₁.resolve_right (not_not_intro ?_)
      have hhalt := hpaused.halted
      rcases pause_ne_running hpause with rfl | rfl
      · exact .inl hhalt
      · exact .inr hhalt
    subst hb0
    obtain rfl : m₁ = m₂ := Reply.prompt.inj (Option.some.inj ((command_step_zero _).symm.trans h₂))
    rw [UInt64.add_zero] at h₃
    exact same (Reply.prompt.inj (command_unique h₁ h₃))
  | halted hy hbef hstop hbeside =>
    obtain ⟨hhalt, hn⟩ := plain_exit hoff hy hstop
    rw [command_step_natural (hbeside.halted.trans hhalt ▸ hn)] at h₂
    cases h₂
    cases hboth with
    | halted hy' _ _ hbeside' =>
      obtain rfl := StepLoop.Leaves.unique ⟨_, hy⟩ ⟨_, hy'⟩
      exact (Alike.sameVisible hbeside).trans (Alike.sameVisible hbeside').symm
    | paused hk' _ hpause' _ _ =>
      -- a pause at the later boundary would have been one at the earlier
      refine absurd (pauses_of_later hab ?_) (hbef _ _ ?_ hk')
      · exact fun hnone => Option.some_ne_none _ (hpause'.symm.trans hnone)
      · by_contra hle
        obtain ⟨d, hd⟩ := Nat.exists_eq_add_of_le (Nat.le_of_not_lt hle)
        rw [hd, StepLoop.after_add_error hy d] at hk'
        cases hk'

end Additive

/-! ## Whole sessions -/

/-- **A session that resumes no soft halt is on the track of a run without the debugger**, in
either mode. -/
theorem reached_onTrack_mode {η : Type} {io : ReplMode η} {bytes : List UInt8} {e : η}
    {timeline : List (Moment η)} {lastRun : Nat} {m : Repl η} {vm0 : VM}
    (hb : VM.boot bytes = some vm0) (h : Reached io bytes e NoSoftResume timeline lastRun m) :
    OnTrack (plainEnv io) (.start vm0 e) [] m := by
  induction h with
  | start hstart =>
    obtain ⟨vm0', hb', rfl⟩ := debugStart_eq_some hstart
    obtain rfl := Option.some.inj (hb.symm.trans hb')
    exact .base (boot_running hb).1 ⟨rfl, rfl, rfl, rfl, fun _ _ => rfl, rfl, rfl⟩
  | command hreached hc hm ih =>
    exact OnTrack.line io ih (reached_atPrompt hreached) (boot_running hb).2 hc hm

/-- In replay mode it is the track of the replay. -/
theorem reached_onTrack {frames : Trace} {bytes : List UInt8} {timeline : List (Moment Nat)}
    {lastRun : Nat} {m : Repl Nat} {vm0 : VM} (hb : VM.boot bytes = some vm0)
    (h : Reached (replayMode frames) bytes 0 NoSoftResume timeline lastRun m) :
    OnTrack (replayEnv frames) (.start vm0 0) [] m :=
  reached_onTrack_mode hb h

/-- What transparency asks of a prompt, in a session of these lines: every line comes back to a
prompt; the calls made are a prefix of those of the replay, and after a natural halt the VM is in
the state the replay ends in; and steps add up. -/
structure Transparent (lines : Repl Nat → Command → Prop) (bytes : List UInt8) (frames : Trace)
    (m : Repl Nat) : Prop where
  returns : ∀ c, lines m c → ∃ fuel m', command (replayMode frames) fuel m c = some (.prompt m')
  replayed : ∃ vm0 y, VM.boot bytes = some vm0 ∧
    StepLoop.Leaves (turn (replayEnv frames)) (.start vm0 0) y ∧
    calls m.history <+: calls y.machine.history ∧
    (m.state.halted.natural →
      y.stop = .returned m.state.halted ∧ SameVisible m.vm y.machine.vm)
  additive : ∀ (a b : UInt64) (fuel₁ fuel₂ fuel₃ : Nat) (m₁ m₂ m₃ : Repl Nat),
    a.toNat + b.toNat < 2 ^ 64 → lines m (.step a) →
    command (replayMode frames) fuel₁ m (.step a) = some (.prompt m₁) → lines m₁ (.step b) →
    command (replayMode frames) fuel₂ m₁ (.step b) = some (.prompt m₂) →
    command (replayMode frames) fuel₃ m (.step (a + b)) = some (.prompt m₃) →
    SameVisible m₂.vm m₃.vm

/-- **The debugger is transparent as long as no line resumes a soft halt.** In every session on a
recorded trace whose lines step, continue, set or delete breakpoints, and in which none runs the VM
from a soft halt, every prompt is transparent. -/
theorem debugger_transparent_without_resume (bytes : List UInt8) (stdin rng : Nat → UInt32)
    (fuel : Nat) (r : HaltReason) (vm : VM) (frames : Trace)
    (hrec : cmdRecord bytes stdin rng fuel = some (.halted r vm frames))
    (timeline : List (Moment Nat)) (lastRun : Nat) (m : Repl Nat)
    (h : Reached (replayMode frames) bytes 0 NoSoftResume timeline lastRun m) :
    Transparent NoSoftResume bytes frames m := by
  obtain ⟨vm0, y, hb, hy, hstop, -, -⟩ := replay_follows_record hrec
  obtain ⟨hrun, hoff⟩ := boot_running hb
  have hzero : (Machine.start vm0 0).state.cycleCount = 0 := by
    rw [boot_eq_some hb]
    rfl
  have hprompt := reached_atPrompt h
  have htrack := reached_onTrack hb h
  have hleaves : StepLoop.Leaves (Machine.cycle (replayEnv frames)) (.start vm0 0) y := ⟨fuel, hy⟩
  refine ⟨fun c hc => ?_, ⟨vm0, y, hb, (leaves_turn_iff hrun).mpr hleaves,
    htrack.calls_prefix hleaves, fun hnat => ?_⟩, ?_⟩
  · exact OnTrack.returns (replayMode frames) htrack hprompt hoff hc hleaves hstop
  · cases htrack with
    | base hr _ =>
      rw [hr] at hnat
      rcases hnat with hn | hn | hn <;> cases hn
    | paused _ hr hp =>
      have hhalt : m.state.halted = _ := hp.halted
      rw [hhalt] at hnat
      rcases hr with rfl | rfl <;> rcases hnat with hn | hn | hn <;> cases hn
    | ended hy' hstop' _ hbeside =>
      obtain rfl := StepLoop.Leaves.unique hleaves ⟨_, hy'⟩
      obtain ⟨hhalt, -⟩ := plain_exit hoff hy' hstop'
      exact ⟨hstop'.trans (congrArg Stop.returned (hhalt.symm.trans hbeside.halted.symm)),
        Alike.sameVisible hbeside⟩
  · intro a b fuel₁ fuel₂ fuel₃ m₁ m₂ m₃ hab hsoft h₁ hsoft₁ h₂ h₃
    exact OnTrack.step_add (replayMode frames) htrack hprompt hoff hzero hab hsoft h₁ hsoft₁ h₂
      h₃

/-- `LI R0, 5; HALT`. -/
def loadThenHalt : List UInt8 := imageOf [encode 0x0B 0 0 5, 0]

/-- Its recording has no frames. -/
theorem loadThenHalt_frames :
    (cmdRecord loadThenHalt (fun _ => 0) (fun _ => 0) 2).bind RecordOutcome.frames = some [] := by
  decide +kernel

/-- Continued to its end. -/
theorem debugger_transparent_without_resume_continue :
    ∃ m : Repl Nat, m.state.halted = .normal ∧ Transparent NoSoftResume loadThenHalt [] m := by
  obtain ⟨r, vm, hrec⟩ := halted_of_frames loadThenHalt_frames
  have hstart : (debugStart (replayMode []) loadThenHalt 0).map (fun m => m.state.halted) =
      some .running := by
    decide +kernel
  obtain ⟨m0, hm0, hrun⟩ := Option.map_eq_some_iff.mp hstart
  have hend : ((debugStart (replayMode []) loadThenHalt 0).bind fun m =>
      session (replayMode []) 2 m [.continue]).map (fun m => m.state.halted) = some .normal := by
    decide +kernel
  rw [hm0] at hend
  obtain ⟨m, hm, hnormal⟩ := Option.map_eq_some_iff.mp hend
  obtain ⟨u, hu, hnil⟩ := session_cons hm
  cases hnil
  have hfree : NoSoftResume m0 .continue := by
    rintro (h | h) <;> rw [hrun] at h <;> cases h
  have hstarted : Reached (replayMode []) loadThenHalt 0 NoSoftResume _ _ m0 := .start hm0
  have hreached := hstarted.command hfree hu
  exact ⟨m, hnormal, debugger_transparent_without_resume _ _ _ 2 r vm [] hrec _ _ m hreached⟩

/-- **A resumed session loses the instruction in flight**: after `step 1` and `continue`, R0 is 0 at
the end, and 5 in the replay. -/
theorem resume_loses_instruction :
    ¬ ∀ (bytes : List UInt8) (stdin rng : Nat → UInt32) (fuel : Nat) (r : HaltReason) (vm : VM)
      (frames : Trace), cmdRecord bytes stdin rng fuel = some (.halted r vm frames) →
        ∀ (timeline : List (Moment Nat)) (lastRun : Nat) (m : Repl Nat),
          Reached (replayMode frames) bytes 0 ForwardLine timeline lastRun m →
            Transparent ForwardLine bytes frames m := by
  intro hall
  obtain ⟨r, vm, hrec⟩ := halted_of_frames loadThenHalt_frames
  have hend : ((debugStart (replayMode []) loadThenHalt 0).bind fun m =>
      session (replayMode []) 2 m [.step 1, .continue]).map
        (fun m => (m.state.halted, m.state.regs.get 0)) = some (.normal, 0) := by
    decide +kernel
  obtain ⟨m, hm, hzero⟩ := Option.map_eq_some_iff.mp hend
  obtain ⟨m0, hm0, hsession⟩ := Option.bind_eq_some_iff.mp hm
  have hlines : ∀ c ∈ [Command.step 1, .continue], ∀ u : Repl Nat, ForwardLine u c := by
    simp [ForwardLine]
  obtain ⟨timeline, lastRun, hreached⟩ := reached_session (.start hm0) hlines hsession
  obtain ⟨vm0, y, hb, hy, -, hnat⟩ :=
    (hall _ _ _ 2 r vm [] hrec timeline lastRun m hreached).replayed
  obtain ⟨-, hsame⟩ := hnat (.inl (congrArg Prod.fst hzero))
  have hreplay : ((VM.boot loadThenHalt).bind fun vm =>
      StepLoop.exec (turn (replayEnv [])) 2 (.start vm 0)).map
        (fun x => x.machine.state.regs.get 0) = some 5 := by
    decide +kernel
  rw [hb] at hreplay
  obtain ⟨x, hx, hfive⟩ := Option.map_eq_some_iff.mp hreplay
  obtain rfl := StepLoop.Leaves.unique hy ⟨2, StepLoop.exec_eq_some_iff.mp hx⟩
  have hregs : m.state.regs = y.machine.state.regs := hsame.regs
  have h0 := congrArg Prod.snd hzero
  simp only [hregs, hfive] at h0
  exact absurd h0 (by decide)

end RetroVM

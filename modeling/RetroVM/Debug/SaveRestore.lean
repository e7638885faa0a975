import RetroVM.Debug.Rerun
import RetroVM.Checkpoint.SplitRun

/-!
# Restoring what the debugger saved (`main.cpp`, `cmd_debug_run`, `save`; `cmd_restore`)

`save` keeps registers, pc, sp, flags and the cursor of the session, and takes the fetch of a soft
halt back. It keeps no cycle: `cmd_restore` counts on from the frame under the cursor. So the
restored run dispatches the instruction the session stopped at in the right cycle only if that is
the cycle of the next frame; then it runs on as the checkpoints of `cmd_save` do. The session has to
be on the track of the replay (`reached_onReplay`): every run of it started where the session did.

Results:
* `restoreStart_upcoming`: what a restored run dispatches first.
* `reached_onReplay`: at a soft halt, where the replay stands.
* **`repl_save_restores_iff`**, and `repl_save_restores_late`, where it fails.
-/

namespace RetroVM

/-! ## Two runs without a debugger -/

section Plain

variable {ε : Type} {E : Env ε} {m k : Machine ε}

/-- Two fresh starts that look the same. -/
theorem staleIn_of_sameVisible (h : SameVisible m.vm k.vm) (henv : m.env = k.env)
    (hfresh : m.history = []) (hrun : m.state.halted = .running)
    (hoff : m.state.snapInterval = 0) (hoff' : k.state.snapInterval = 0) :
    StaleIn ∅ Eq (calls k.history) m k where
  alike := {
    cpu := by
      change (⟨m.state.regs, m.state.pc, m.state.flags⟩ : Cpu) =
        ⟨k.state.regs, k.state.pc, k.state.flags⟩
      rw [h.regs, h.pc, h.flags]
    cycleCount := h.cycleCount
    sp := h.sp
    halted := h.halted
    mem := fun a _ => congrFun h.mem a
    env := henv
    calls := by
      rw [hfresh]
      exact List.append_nil _ }
  differs := fun a ha => absurd ha (Set.notMem_empty a)
  running := hrun
  off := hoff
  off' := hoff'

/-- With nothing stale they run alike. -/
theorem alike_run {pre : List Call} (h : StaleIn ∅ Eq pre m k) (n : Nat) :
    StepLoop.Matched (Alike ∅ Eq pre []) (AlikeExit ∅ Eq pre [])
      (StepLoop.after (Machine.cycle E) n m) (StepLoop.after (Machine.cycle E) n k) := by
  have hnone : stillStale E k ∅ n ⊆ ∅ := fun _ ha => ha.1
  refine (stale_run (sameHooks_rfl E) h (fun _ _ _ a _ ha => absurd ha (Set.notMem_empty a)) n).imp
    (fun _ _ _ _ hs => hs.alike.mono hnone) fun _ _ _ _ hs => ?_
  exact ⟨hs.alike.stop, hs.alike.machine.mono hnone⟩

end Plain

/-! ## Where a session stopped -/

/-- The machine whose next fetch is the instruction the session stopped at. -/
def Machine.stopped (m : Repl Nat) : Machine Nat :=
  .start {
    mem := m.mem
    state := { m.state with
      pc := if m.state.halted = .running then m.state.pc else m.state.pc - 4
      cycleCount :=
        if m.state.halted = .running then m.state.cycleCount else m.state.cycleCount - 1
      halted := .running
      snapInterval := 0 }
    deltas := [] } m.env.1

/-- The next instruction of a run: cycle, address and word. -/
def Machine.upcoming (k : Machine Nat) : UInt64 × UInt32 × UInt32 :=
  (k.state.cycleCount + 1, k.state.pc, k.fetched)

/-- The session is in the state it started in. -/
def AtStart (bytes : List UInt8) (m : Repl Nat) : Prop :=
  ∃ vm, VM.boot bytes = some vm ∧ SameVisible m.vm vm ∧ m.env.1 = 0

/-- A line that runs the VM only from the start of the session. -/
def RunsFromStart (bytes : List UInt8) (m : Repl Nat) (c : Command) : Prop :=
  ∀ t, c.RunsTo m t → m.state.halted.natural ∨ AtStart bytes m

/-- `k` stands where the session stopped. -/
structure OnReplay (m : Repl Nat) (k : Machine Nat) : Prop where
  visible : SameVisible m.stopped.vm k.vm
  cursor  : m.env.1 = k.env

section OnReplay

variable {bytes : List UInt8} {frames : Trace} {timeline : List (Moment Nat)} {lastRun : Nat}
  {m : Repl Nat}

/-- `save` writes a checkpoint of where the session stopped. -/
theorem replCheckpoint_eq (frames : Trace) (m : Repl Nat) :
    replCheckpoint (replayMode frames) m = checkpointOf m.state.halted m.env.1 m.stopped := rfl

theorem atStart_of_debugStart (h : debugStart (replayMode frames) bytes 0 = some m) :
    AtStart bytes m := by
  obtain ⟨vm, hb, rfl⟩ := debugStart_eq_some h
  exact ⟨vm, hb, ⟨rfl, rfl, rfl, rfl, rfl, rfl, rfl⟩, rfl⟩

/-- A session in the state it started in is on the replay. -/
theorem AtStart.onReplay {vm0 : VM} (hb : VM.boot bytes = some vm0) (h : AtStart bytes m) :
    OnReplay m (.start vm0 0) := by
  obtain ⟨vm, hb', hsame, hcursor⟩ := h
  obtain rfl := Option.some.inj (hb.symm.trans hb')
  have hrun : m.state.halted = .running := hsame.halted.trans (boot_running hb).1
  refine ⟨⟨hsame.regs, ?_, hsame.sp, hsame.flags, ?_, (boot_running hb).1.symm, hsame.mem⟩, hcursor⟩
  · exact (if_pos hrun).trans hsame.pc
  · exact (if_pos hrun).trans hsame.cycleCount

/-- A soft halt is on the replay if the run that came to it started there. -/
theorem CameFrom.onReplay {vm0 : VM} {f : Moment Nat} {n : Nat} (h : CameFrom frames f m n)
    (hsoft : SoftHalted m) (hoff : vm0.state.snapInterval = 0)
    (hsame : SameVisible f.rerun.vm vm0) (hcursor : f.env.1 = 0) :
    ∃ j k, StepLoop.after (Machine.cycle (replayEnv frames)) j (.start vm0 0) = .ok k ∧
      OnReplay m k := by
  cases h with
  | @intro d u pre j hu _ _ hp =>
    have hstart := staleIn_of_sameVisible (m := f.rerun) (k := .start vm0 0) hsame hcursor rfl rfl
      rfl hoff
    have hmatch := alike_run (E := replayEnv frames) hstart j
    rw [hu] at hmatch
    obtain ⟨k, hk, halike⟩ := hmatch.of_ok
    have hrun : ¬ m.state.halted = .running := by
      rcases hsoft with h | h <;> rw [h] <;> decide
    have hpast := Alike.sameVisible hp
    have hback : SameVisible m.stopped.vm u.vm := by
      refine ⟨hpast.regs, (if_neg hrun).trans ?_, hpast.sp, hpast.flags, (if_neg hrun).trans ?_,
        (rerun_running hu).symm, hpast.mem⟩
      · rw [show m.state.pc = u.state.pc + 4 from hpast.pc, UInt32.add_sub_cancel]
      · rw [show m.state.cycleCount = u.state.cycleCount + 1 from hpast.cycleCount,
          UInt64.add_sub_cancel]
    exact ⟨j, k, hk, hback.trans halike.sameVisible, hp.env.trans halike.env⟩

/-- **At every soft halt of a session whose runs all started where it did, the replay stands where
the session stopped.** -/
theorem reached_onReplay {vm0 : VM} (hb : VM.boot bytes = some vm0)
    (h : Reached (replayMode frames) bytes 0 (RunsFromStart bytes) timeline lastRun m)
    (hpoint : SoftHalted m ∨ AtStart bytes m) :
    ∃ j k, StepLoop.after (Machine.cycle (replayEnv frames)) j (.start vm0 0) = .ok k ∧
      OnReplay m k := by
  rcases hpoint with hsoft | hstart
  · have hP : ∀ m c t, RunsFromStart bytes m c → c.RunsTo m t → ¬ m.state.halted.natural →
        ∀ f, Stands (replayMode frames) m f →
          SameVisible f.rerun.vm vm0 ∧ f.env.1 = 0 := by
      intro m c t hc ht hnat f hstands
      obtain ⟨vm, hb', hsame, hcursor⟩ := (hc t ht).resolve_left hnat
      obtain rfl := Option.some.inj (hb.symm.trans hb')
      have hrun : m.state.halted = .running := hsame.halted.trans (boot_running hb).1
      have hbeside := Alike.sameVisible hstands.beside
      rw [setHalted_running hrun] at hbeside
      exact ⟨hbeside.symm.trans hsame, hstands.cursor.symm.trans hcursor⟩
    obtain ⟨f, -, ⟨hsame, hcursor⟩, hfrom⟩ := reached_cameFrom hP h hsoft
    exact hfrom.onReplay hsoft (boot_running hb).2 hsame hcursor
  · exact ⟨0, _, rfl, hstart.onReplay hb⟩

/-! ## Restoring -/

/-- What `save` promises at a stop: a restored run dispatches first what the session
stopped at, in the same cycle, and ends without divergence, for the same reason and in the same
cycle as the replay. -/
structure RestoresOutOfBand (bytes : List UInt8) (frames : Trace) (m : Repl Nat) : Prop where
  first : ∃ index k, restoreStart bytes frames
    (checkpointSave (replCheckpoint (replayMode frames) m)) = .ok (index, k) ∧
      k.upcoming = m.stopped.upcoming
  finish : ∃ fuel n r vm fuel' vm', cmdRestore bytes frames
    (checkpointSave (replCheckpoint (replayMode frames) m)) fuel = some (.restored n r vm) ∧
      cmdReplay bytes frames fuel' = some (.verified r vm') ∧
        vm.state.cycleCount = vm'.state.cycleCount

/-- **What a restored run dispatches first**, if it starts: the instruction the session stopped at,
if that is not stale, in the cycle of the next frame. -/
theorem restoreStart_upcoming {index : UInt32} {k : Machine Nat}
    (h : restoreStart bytes frames (checkpointSave (replCheckpoint (replayMode frames) m)) =
      .ok (index, k)) (h32 : m.env.1 < 2 ^ 32) :
    ∃ f, frames[m.env.1]? = some f ∧ f.cycle ≠ 0 ∧ k.state.cycleCount + 1 = f.cycle := by
  have hindex : (replCheckpoint (replayMode frames) m).frameIndex.toNat = m.env.1 :=
    UInt32.toNat_ofNat_of_lt' h32
  unfold restoreStart at h
  simp only [checkpointLoad_checkpointSave, hindex] at h
  cases hf : frames[m.env.1]? with
  | none =>
    rw [hf] at h
    cases h
  | some f =>
    rw [hf] at h
    simp only at h
    split at h
    · cases h
    · next hc =>
      split at h
      · cases h
      · cases h
        exact ⟨f, rfl, hc, UInt64.sub_add_cancel _ _⟩

/-- A machine restored at the frame of its next cycle fetches what the session stopped at. -/
theorem restored_upcoming {vm0 : VM} (hb : VM.boot bytes = some vm0) {f : TraceFrame}
    (hat : AtFrame f m.env.1 m.stopped)
    (hno : NoStaleRead (replayEnv frames) m.stopped (staleBytes bytes m.stopped)) :
    (Machine.start (vm0.setState (restoredState (replCheckpoint (replayMode frames) m) f.cycle))
      m.env.1).upcoming = m.stopped.upcoming := by
  have hstale := restored_staleIn m.state.halted hb hat rfl rfl
  rw [← replCheckpoint_eq frames] at hstale
  have hfetch := hstale.alike.fetched fun a ha hs => by
    have hreads : a ∈ m.stopped.reads := .inl (hstale.alike.pc ▸ ha)
    obtain ⟨i, hi, -⟩ := hno 0 _ rfl a hreads hs
    exact Nat.not_lt_zero i hi
  unfold Machine.upcoming
  rw [hfetch, hstale.alike.cycleCount, hstale.alike.pc]

end OnReplay

/-- **When a save of the debugger can be restored.** Take any session on a recorded trace whose runs
all started where the session did, at a soft halt or at the start, with a frame left; no byte is
read that `cmd_restore` has stale before it is stored to. Then the save restores exactly when the
next frame is that of the cycle the session stopped in, and that is not 0. -/
theorem repl_save_restores_iff (bytes : List UInt8) (stdin rng : Nat → UInt32) (fuel : Nat)
    (r : HaltReason) (vm : VM) (frames : Trace)
    (hrec : cmdRecord bytes stdin rng fuel = some (.halted r vm frames))
    (timeline : List (Moment Nat)) (lastRun : Nat) (m : Repl Nat)
    (h : Reached (replayMode frames) bytes 0 (RunsFromStart bytes) timeline lastRun m)
    (hpoint : SoftHalted m ∨ AtStart bytes m) (hcursor : m.env.1 < frames.length)
    (h32 : m.env.1 < 2 ^ 32)
    (hno : NoStaleRead (replayEnv frames) m.stopped (staleBytes bytes m.stopped)) :
    RestoresOutOfBand bytes frames m ↔
      frames[m.env.1].cycle = m.stopped.state.cycleCount + 1 ∧ frames[m.env.1].cycle ≠ 0 := by
  have hf : frames[m.env.1]? = some frames[m.env.1] := List.getElem?_eq_getElem hcursor
  constructor
  · rintro ⟨⟨index, k, hk, hup⟩, -⟩
    obtain ⟨f, hf', hc, hcycle⟩ := restoreStart_upcoming hk h32
    obtain rfl := Option.some.inj (hf.symm.trans hf')
    have hsame : k.state.cycleCount + 1 = m.stopped.state.cycleCount + 1 := congrArg Prod.fst hup
    exact ⟨hcycle.symm.trans hsame, hc⟩
  · rintro ⟨hcycle, hc⟩
    obtain ⟨vm0, y, hb, hy, hstop, hread, -⟩ := replay_follows_record hrec
    obtain ⟨hrun0, hint⟩ := boot_running hb
    obtain ⟨j, k, hk, hon⟩ := reached_onReplay hb h hpoint
    have hat : AtFrame frames[m.env.1] m.env.1 m.stopped := ⟨rfl, hcycle.symm⟩
    -- from the stop the rest of the replay can be run without what went before
    obtain ⟨d, hd⟩ := StepLoop.Leaves.rest hk ⟨fuel, hy⟩
    have hmatch := alike_run (E := replayEnv frames)
      (staleIn_of_sameVisible hon.visible hon.cursor rfl rfl rfl (after_off hint hk)) d
    rw [hd] at hmatch
    obtain ⟨z, hy', hz⟩ := hmatch.error_of
    obtain ⟨x, hx, hrestore⟩ := restore_of_instant m.state.halted hb hf h32 hc hat rfl rfl hno
      hy' (hz.stop.trans hstop) (hz.machine.env.trans hread)
    have hindex : (replCheckpoint (replayMode frames) m).frameIndex.toNat = m.env.1 :=
      UInt32.toNat_ofNat_of_lt' h32
    have hreplay : cmdReplay bytes frames fuel = some (.verified r y.machine.vm) :=
      (cmdReplay_eq_some_iff hb).mpr ⟨y, hy, replayVerdict_eq_verified.mpr
        ⟨hstop, Nat.le_of_eq hread.symm, rfl⟩⟩
    refine ⟨⟨_, _, restoreStart_eq_ok hb (checkpointLoad_checkpointSave _)
      (by rw [hindex, hf]) hc, ?_⟩, d, _, r, _, fuel, _, hrestore, hreplay, ?_⟩
    · rw [hindex]
      exact restored_upcoming hb hat hno
    · exact hx.alike.machine.cycleCount.trans hz.machine.cycleCount

/-- `IN R0; STORE R0, 0x100; IN R1; STORE R1, 0x100; HALT`. -/
def inStoreTwice : List UInt8 :=
  imageOf [encode 0x09 0 0 0, encode 0x02 0 0 0x100, encode 0x09 1 0 0, encode 0x02 1 0 0x100, 0]

/-- Its stores are to one word. -/
theorem inStoreTwice_writes {vm0 : VM} (hb : VM.boot inStoreTwice = some vm0) {i : Nat}
    {u : Machine Nat}
    (hu : StepLoop.after (Machine.cycle (replayEnv [⟨1, 0x09, 5⟩, ⟨3, 0x09, 6⟩])) i
      (.start vm0 0) = .ok u) : ∀ a ∈ u.writes, a ∈ cells 0x100 := by
  have hboot : VM.boot inStoreTwice = some _ := boot_of_le (by decide)
  obtain rfl := Option.some.inj (hboot.symm.trans hb)
  let E := replayEnv [⟨1, 0x09, 5⟩, ⟨3, 0x09, 6⟩]
  let m0 : Machine Nat := .start { VM.init with mem := fun a => inStoreTwice.getD a 0 } 0
  let turns : List (UInt32 × Instr) := [(0, .ask .input 0), (4, .store 0 0x100),
    (8, .ask .input 1), (12, .store 1 0x100), (16, .halt)]
  have hruns : ∀ i : Fin 5, ((StepLoop.after (Machine.cycle E) i m0).toOption.map fun m =>
      (m.state.pc, decode m.fetched)) = some ((turns.get i).1, some (turns.get i).2) := by
    decide +kernel
  have hover : (StepLoop.after (Machine.cycle E) 5 m0).toOption.isNone := by
    decide +kernel
  have hlt : i < 5 := by
    by_contra hle
    obtain ⟨v, hv, -⟩ := StepLoop.after_ok_of_le hu (Nat.le_of_not_lt hle)
    rw [hv] at hover
    cases hover
  obtain ⟨v, hv, -, hwrites⟩ := exists_footprint (hruns ⟨i, hlt⟩)
  obtain rfl := Except.ok.inj (hu.symm.trans hv)
  intro a ha
  rw [hwrites] at ha
  match i, hlt with
  | 1, _ | 3, _ => exact ha
  | 0, _ | 2, _ | 4, _ => cases ha

/-- Stopped at its second `IN`, one frame read and one word stale, it is saved and restored. -/
theorem repl_save_restores_second_frame :
    ∃ m : Repl Nat, m.state.halted = .step ∧ m.env.1 = 1 ∧ m.mem 0x100 = 5 ∧
      RestoresOutOfBand inStoreTwice [⟨1, 0x09, 5⟩, ⟨3, 0x09, 6⟩] m := by
  let frames : Trace := [⟨1, 0x09, 5⟩, ⟨3, 0x09, 6⟩]
  let E := replayEnv frames
  let prompt : Option (Repl Nat) := (debugStart (replayMode frames) inStoreTwice 0).bind fun m₀ =>
    session (replayMode frames) 4 m₀ [.step 3]
  have hframes : (cmdRecord inStoreTwice (fun n => 5 + UInt32.ofNat n) (fun _ => 0) 5).bind
      RecordOutcome.frames = some frames := by
    decide +kernel
  obtain ⟨r, vm, hrec⟩ := halted_of_frames hframes
  have hseen : prompt.map (fun m => (m.state.halted, m.env.1, m.mem 0x100)) =
      some (.step, 1, 5) := by
    decide +kernel
  have hcycles : prompt.map (fun m => m.stopped.state.cycleCount) = some 2 := by
    decide +kernel
  have hfirst : (prompt.bind fun m => (StepLoop.after (Machine.cycle E) 0 m.stopped).toOption.map
      fun u => (u.state.pc, decode u.fetched)) = some (8, some (.ask .input 1)) := by
    decide +kernel
  have hsecond : (prompt.bind fun m => (StepLoop.after (Machine.cycle E) 1 m.stopped).toOption.map
      fun u => (u.state.pc, decode u.fetched)) = some (12, some (.store 1 0x100)) := by
    decide +kernel
  obtain ⟨m, hm, hat⟩ := Option.map_eq_some_iff.mp hseen
  simp only [Prod.mk.injEq] at hat
  obtain ⟨hstep, hcursor, hword⟩ := hat
  rw [hm] at hcycles
  rw [hm, Option.bind_some] at hfirst hsecond
  obtain ⟨m₁, hm₁, hreads₁, -⟩ := exists_footprint hfirst
  obtain rfl := Except.ok.inj hm₁
  obtain ⟨m₂, hm₂, hreads₂, hwrites₂⟩ := exists_footprint hsecond
  obtain ⟨m₀, hm₀, hsession⟩ := Option.bind_eq_some_iff.mp hm
  obtain ⟨u, hu, hnil⟩ := session_cons hsession
  cases hnil
  have hstarted : Reached (replayMode frames) inStoreTwice 0 (RunsFromStart inStoreTwice) _ _ m₀ :=
    .start hm₀
  have hreached := hstarted.command (fun _ _ => .inr (atStart_of_debugStart hm₀)) hu
  have hsoft : SoftHalted m := .inl hstep
  have hb : VM.boot inStoreTwice = some _ := boot_of_le (by decide)
  obtain ⟨j, k, hk, hon⟩ := reached_onReplay hb hreached (.inl hsoft)
  have hstale : ∀ a ∈ staleBytes inStoreTwice m.stopped, a ∈ cells 0x100 := by
    intro a ha
    have hak : a ∈ staleBytes inStoreTwice k := by
      intro hsame
      exact ha (hsame.trans (congrFun hon.visible.mem a).symm)
    obtain ⟨i, -, u, hu, hw⟩ := rewritten_of_stale hb hk hak
    exact inStoreTwice_writes hb hu a hw
  have hfetch : ∀ a, ∀ p ≤ 0xFC, a ∈ cells (UInt32.ofNat p) → a ∉ cells 0x100 :=
    fun a p hp => cells_apart (q := 0x100) (by omega) (by decide)
  refine ⟨m, hstep, hcursor, hword, (repl_save_restores_iff inStoreTwice _ _ 5 r vm _ hrec _ _ m
    hreached (.inl hsoft) (by rw [hcursor]; decide) (by rw [hcursor]; decide)
    fun n m' hm' a hread ha => ?_).mpr ?_⟩
  · have hcell := hstale a ha
    match n with
    | 0 =>
      obtain rfl := Except.ok.inj hm'
      rw [hreads₁] at hread
      exact absurd hcell (hfetch a 8 (by decide) (hread.resolve_right (Set.notMem_empty a)))
    | 1 =>
      obtain rfl := Except.ok.inj (hm'.symm.trans hm₂)
      rw [hreads₂] at hread
      exact absurd hcell (hfetch a 12 (by decide) (hread.resolve_right (Set.notMem_empty a)))
    | n + 2 => exact ⟨1, Nat.lt_add_left n (by decide), m₂, hm₂, hwrites₂ ▸ hcell⟩
  · have hframe : ∀ (i : Nat) (hi : i < 2), i = 1 → frames[i].cycle = 3 := by
      rintro i hi rfl
      rfl
    have htwo : m.stopped.state.cycleCount = 2 := Option.some.inj hcycles
    rw [htwo, hframe _ _ hcursor]
    decide

/-- `LI R0, 5; IN R1; HALT`. -/
def loadThenIn : List UInt8 := imageOf [encode 0x0B 0 0 5, encode 0x09 1 0 0, 0]

/-- **A save away from the next frame's cycle cannot be restored**: `step 1` stops at the `LI` in
cycle 1, and the restored run dispatches it in cycle 2. -/
theorem repl_save_restores_late :
    ¬ ∀ (bytes : List UInt8) (stdin rng : Nat → UInt32) (fuel : Nat) (r : HaltReason) (vm : VM)
      (frames : Trace), cmdRecord bytes stdin rng fuel = some (.halted r vm frames) →
        ∀ (timeline : List (Moment Nat)) (lastRun : Nat) (m : Repl Nat),
          Reached (replayMode frames) bytes 0 AnyLine timeline lastRun m →
            m.env.1 < frames.length → ¬ m.state.halted.natural →
              RestoresOutOfBand bytes frames m := by
  intro hall
  have hframes : (cmdRecord loadThenIn (fun _ => 5) (fun _ => 0) 3).bind RecordOutcome.frames =
      some [⟨2, 0x09, 5⟩] := by
    decide +kernel
  obtain ⟨r, vm, hrec⟩ := halted_of_frames hframes
  have hrun : ((debugStart (replayMode [⟨2, 0x09, 5⟩]) loadThenIn 0).bind fun m =>
      session (replayMode [⟨2, 0x09, 5⟩]) 1 m [.step 1]).map (fun m =>
        (m.state.halted, m.env.1, m.stopped.state.cycleCount + 1)) = some (.step, 0, 1) := by
    decide +kernel
  obtain ⟨m, hm, hseen⟩ := Option.map_eq_some_iff.mp hrun
  obtain ⟨m₀, hm₀, hsession⟩ := Option.bind_eq_some_iff.mp hm
  simp only [Prod.mk.injEq] at hseen
  obtain ⟨hstep, hcursor, hone⟩ := hseen
  obtain ⟨timeline, lastRun, hreached⟩ := reached_session (.start hm₀)
    (fun _ _ _ => trivial) hsession
  have hnat : ¬ m.state.halted.natural := by
    rw [hstep]
    rintro (h | h | h) <;> cases h
  obtain ⟨⟨index, k, hk, hup⟩, -⟩ := hall _ _ _ 3 r vm _ hrec timeline lastRun m hreached
    (by rw [hcursor]; decide) hnat
  obtain ⟨f, hf, -, hcycle⟩ := restoreStart_upcoming hk (by rw [hcursor]; decide)
  rw [hcursor] at hf
  cases hf
  have hsame : k.state.cycleCount + 1 = m.stopped.state.cycleCount + 1 := congrArg Prod.fst hup
  rw [hcycle, hone] at hsame
  exact absurd hsame (by decide)

end RetroVM

import RetroVM.Debug.Breakpoints
import RetroVM.Debug.Rerun

/-!
# Counting steps (`main.cpp`, `cmd_debug_run`, `step`; `CmdDebug::target_cycle`)

`step n` sets the boundary to `cycle_count + n` in 64 bits, and the sink compares it with the cycle
of every fetch. The sum can wrap around, and it can come to `UINT64_MAX`, which stands for no
boundary at all.

Results:
* `step_halted`, `step_halts`: when a step ends in `HALT_STEP`, and in which cycle.
* `firstDue_iff`: on which fetch the boundary of a step is first due.
* **`step_counts_iff`**: when `step n` counts `n` cycles.
-/

namespace RetroVM

variable {η : Type}

/-! ## When the boundary is due -/

/-- From cycle `c` on, the boundary `t` is due on the fetch behind `j` others for the first time. -/
structure FirstDue (c t : UInt64) (j : Nat) : Prop where
  on  : t ≠ uint64Max
  due : c + UInt64.ofNat (j + 1) ≥ t
  no_earlier : ∀ i, i < j → ¬ c + UInt64.ofNat (i + 1) ≥ t

/-- The sink asks for `HALT_STEP` iff the boundary is due. -/
theorem pause_eq_step_iff {d : CmdDebug} {cycle : UInt64} {pc : UInt32} :
    d.pause cycle pc = some .step ↔ d.BoundaryDue cycle :=
  ⟨boundary_of_pause_step, fun hdue => if_pos hdue⟩

/-! ## One step -/

/-- The run of `m` without a step boundary gets past `j` fetches. -/
def GoesOn (io : ReplMode η) (m : Repl η) (j : Nat) : Prop :=
  ∃ u, StepLoop.after (turn (debugEnv io)) j ((m.setHalted .running).setTarget uint64Max) = .ok u

/-- The VM of a resumed session on its own, the sink and what it remembers left out. -/
def Machine.alone (m : Repl η) : Machine η :=
  .start ((m.vm.setSnapshotInterval 0).requestHalt .running) m.env.1

section Step

variable {io : ReplMode η} {timeline : List (Moment η)} {m m' : Repl η} {n t : UInt64} {j : Nat}

/-- A resumed session runs beside its own VM. -/
theorem AtPrompt.alone (h : AtPrompt io timeline m) (t : UInt64) :
    Shadows { m.env.2 with targetCycle := t } (calls m.history)
      ((m.setHalted .running).setTarget t) m.alone where
  running := rfl
  interval := h.interval
  timer := h.timer
  beside := ⟨rfl, rfl, rfl, rfl, fun _ _ => rfl, rfl, (List.append_nil _).symm⟩
  off := rfl
  target := rfl
  breakpoints := rfl

/-- The fetch behind `j` others is one of cycle `c + j + 1`. -/
theorem alone_cycle {k : Machine η}
    (hk : StepLoop.after (Machine.cycle (plainEnv io)) j m.alone = .ok k) :
    k.state.cycleCount + 1 = m.state.cycleCount + UInt64.ofNat (j + 1) := by
  rw [after_cycleCount hk, UInt64.ofNat_add, UInt64.add_assoc]
  rfl

/-- The session without a boundary goes on for as long as its VM does and no breakpoint is hit. -/
theorem AtPrompt.goesOn_iff (h : AtPrompt io timeline m) :
    GoesOn io m j ↔ ∃ k, StepLoop.after (Machine.cycle (plainEnv io)) j m.alone = .ok k ∧
      StepLoop.Before (Pauses { m.env.2 with targetCycle := uint64Max })
        (Machine.cycle (plainEnv io)) m.alone j := by
  have hs := h.alone uint64Max
  unfold GoesOn
  rw [after_turn_eq _ hs.running]
  constructor
  · rintro ⟨u, hu⟩
    obtain ⟨k, hk, -, hb⟩ := StepLoop.after_pausing (fun _ _ hs hp => shadows_turn io hs hp)
      (fun _ _ hs hp => (shadows_pause io hs hp).imp fun _ hx => hx.1) hs hu
    exact ⟨k, hk, hb⟩
  · rintro ⟨k, hk, hb⟩
    obtain ⟨u, hu, -⟩ :=
      StepLoop.after_before (fun _ _ hs hp => shadows_turn io hs hp) hs hk hb
    exact ⟨u, hu⟩

/-- A fetch pauses a step iff the boundary is due or the fetch would pause without one. -/
theorem pauses_step_iff {d : CmdDebug} {k : Machine η} :
    Pauses { d with targetCycle := t } k ↔
      CmdDebug.BoundaryDue { d with targetCycle := t } (k.state.cycleCount + 1) ∨
        Pauses { d with targetCycle := uint64Max } k := by
  have hoff : ¬ CmdDebug.BoundaryDue { d with targetCycle := uint64Max } (k.state.cycleCount + 1) :=
    fun hdue => hdue.1 rfl
  unfold Pauses
  rw [pause_ne_none_iff, pause_ne_none_iff, or_iff_right hoff]

/-- No fetch before the `j`-th pauses a step iff none pauses the session without the boundary and
the boundary is due on none. -/
theorem before_step_iff {d : CmdDebug} {k : Machine η}
    (hk : StepLoop.after (Machine.cycle (plainEnv io)) j m.alone = .ok k) :
    StepLoop.Before (Pauses { d with targetCycle := t }) (Machine.cycle (plainEnv io)) m.alone j ↔
      (∀ i, i < j → ¬ (t ≠ uint64Max ∧ m.state.cycleCount + UInt64.ofNat (i + 1) ≥ t)) ∧
        StepLoop.Before (Pauses { d with targetCycle := uint64Max })
          (Machine.cycle (plainEnv io)) m.alone j := by
  constructor
  · refine fun hb => ⟨fun i hi hdue => ?_, fun i u hi hu hoff => ?_⟩
    · obtain ⟨u, hu, -⟩ := StepLoop.after_ok_of_le hk (Nat.le_of_lt hi)
      rw [← alone_cycle hu] at hdue
      exact hb i u hi hu (pauses_step_iff.mpr (.inl hdue))
    · exact hb i u hi hu (pauses_step_iff.mpr (.inr hoff))
  · rintro ⟨hnone, hb⟩ i u hi hu hpauses
    rcases pauses_step_iff.mp hpauses with hdue | hoff
    · unfold CmdDebug.BoundaryDue at hdue
      rw [alone_cycle hu] at hdue
      exact hnone i hi hdue
    · exact hb i u hi hu hoff

/-- A step that ended in `HALT_STEP` ended on the fetch its boundary was first due on. -/
theorem AtPrompt.step_halted (h : AtPrompt io timeline m) (hres : m.state.halted.resumable)
    (hn : n ≠ 0) {fuel : Nat} (hm : command io fuel m (.step n) = some (.prompt m'))
    (hstep : m'.state.halted = .step) :
    ∃ j, FirstDue m.state.cycleCount (m.state.cycleCount + n) j ∧ GoesOn io m j ∧
      m'.state.cycleCount = m.state.cycleCount + UInt64.ofNat (j + 1) := by
  have hto : (Command.step n).RunsTo m (m.state.cycleCount + n) := ⟨hn, rfl⟩
  rw [command_resumed hto (debugResume_resumable hres)] at hm
  have hs := h.alone (m.state.cycleCount + n)
  cases runFrom_ends hs hm with
  | halted hy _ hstop hbeside =>
    -- the program's own halts are other ones
    obtain ⟨hhalt, hnat⟩ := plain_exit hs.off hy hstop
    rw [← hhalt, ← hbeside.halted, hstep] at hnat
    rcases hnat with hnat | hnat | hnat <;> cases hnat
  | @paused j k r _ hk hb hpause hp _ =>
    obtain rfl : HaltReason.step = r := hstep.symm.trans hp.halted
    obtain ⟨hon, hdue⟩ := pause_eq_step_iff.mp hpause
    obtain ⟨hnone, hoff⟩ := (before_step_iff hk).mp hb
    rw [alone_cycle hk] at hdue
    refine ⟨j, ⟨hon, hdue, fun i hi hearly => hnone i hi ⟨hon, hearly⟩⟩, ?_, ?_⟩
    · exact h.goesOn_iff.mpr ⟨k, hk, hoff⟩
    · rw [← alone_cycle hk]
      exact hp.cycleCount

/-- A step that gets to the fetch its boundary is first due on ends in `HALT_STEP` on it. -/
theorem AtPrompt.step_halts (h : AtPrompt io timeline m) (hres : m.state.halted.resumable)
    (hn : n ≠ 0) (hfirst : FirstDue m.state.cycleCount (m.state.cycleCount + n) j)
    (hgoes : GoesOn io m j) :
    ∃ fuel m', command io fuel m (.step n) = some (.prompt m') ∧ m'.state.halted = .step ∧
      m'.state.cycleCount = m.state.cycleCount + UInt64.ofNat (j + 1) := by
  have hto : (Command.step n).RunsTo m (m.state.cycleCount + n) := ⟨hn, rfl⟩
  have hs := h.alone (m.state.cycleCount + n)
  obtain ⟨k, hk, hoff⟩ := h.goesOn_iff.mp hgoes
  have hb := (before_step_iff hk).mpr ⟨fun i hi hdue => hfirst.no_earlier i hi hdue.2, hoff⟩
  have hdue : CmdDebug.BoundaryDue { m.env.2 with targetCycle := m.state.cycleCount + n }
      (k.state.cycleCount + 1) := by
    rw [alone_cycle hk]
    exact ⟨hfirst.on, hfirst.due⟩
  obtain ⟨m', hm', hp⟩ := runFrom_paused io hs hk hb (pause_eq_step_iff.mpr hdue)
  refine ⟨j + 1, m', ?_, hp.halted, ?_⟩
  · rw [command_resumed hto (debugResume_resumable hres)]
    exact hm'
  · rw [← alone_cycle hk]
    exact hp.cycleCount

end Step

/-! ## The sum in 64 bits -/

theorem add_ofNat_toNat (c : UInt64) (j : Nat) :
    (c + UInt64.ofNat j).toNat = (c.toNat + j) % 2 ^ 64 := by
  rw [UInt64.toNat_add, UInt64.toNat_ofNat', Nat.add_mod_mod]

theorem eq_uint64Max_iff {t : UInt64} : t = uint64Max ↔ t.toNat = 2 ^ 64 - 1 :=
  ⟨fun h => h ▸ rfl, fun h => UInt64.toNat.inj h⟩

/-- The same of the numbers. -/
theorem firstDue_toNat {c t : UInt64} {j : Nat} :
    FirstDue c t j ↔ t.toNat ≠ 2 ^ 64 - 1 ∧ t.toNat ≤ (c.toNat + (j + 1)) % 2 ^ 64 ∧
      ∀ i, i < j → (c.toNat + (i + 1)) % 2 ^ 64 < t.toNat := by
  have hdue : ∀ i, c + UInt64.ofNat (i + 1) ≥ t ↔ t.toNat ≤ (c.toNat + (i + 1)) % 2 ^ 64 := by
    intro i
    rw [ge_iff_le, UInt64.le_iff_toNat_le, add_ofNat_toNat]
  constructor
  · rintro ⟨hon, hfirst, hearlier⟩
    refine ⟨fun h => hon (eq_uint64Max_iff.mpr h), (hdue j).mp hfirst, fun i hi => ?_⟩
    exact Nat.not_le.mp fun hle => hearlier i hi ((hdue i).mpr hle)
  · rintro ⟨hon, hfirst, hearlier⟩
    refine ⟨fun h => hon (eq_uint64Max_iff.mp h), (hdue j).mpr hfirst, fun i hi hle => ?_⟩
    exact Nat.not_lt.mpr ((hdue i).mp hle) (hearlier i hi)

section Sum

variable {c n : UInt64} {j : Nat}

/-- A sum that does not wrap around is due on the `n`-th fetch, unless it is the sentinel. -/
theorem firstDue_of_fits (hpos : 0 < n.toNat) (hfits : c.toNat + n.toNat < 2 ^ 64) :
    FirstDue c (c + n) j ↔ c.toNat + n.toNat ≠ 2 ^ 64 - 1 ∧ j + 1 = n.toNat := by
  rw [firstDue_toNat, UInt64.toNat_add, Nat.mod_eq_of_lt hfits]
  generalize c.toNat = C at *
  generalize n.toNat = N at *
  constructor
  · rintro ⟨hon, hfirst, hearlier⟩
    have hle := Nat.mod_le (C + (j + 1)) (2 ^ 64)
    have hbehind := hearlier (N - 1)
    rw [Nat.sub_add_cancel hpos, Nat.mod_eq_of_lt hfits] at hbehind
    omega
  · rintro ⟨hon, hj⟩
    refine ⟨hon, by omega, fun i hi => ?_⟩
    rw [Nat.mod_eq_of_lt (by omega)]
    omega

/-- From the last cycle there is, the cycle wraps around with the sum. -/
theorem firstDue_of_last (hpos : 0 < n.toNat) (hmax : c.toNat = 2 ^ 64 - 1) :
    FirstDue c (c + n) j ↔ j + 1 = n.toNat := by
  have hlt := n.toNat_lt
  have hsum : (c.toNat + n.toNat) % 2 ^ 64 = n.toNat - 1 := by omega
  have hcycle : ∀ i, (c.toNat + (i + 1)) % 2 ^ 64 = i % 2 ^ 64 := fun i => by omega
  rw [firstDue_toNat, UInt64.toNat_add]
  simp only [hsum, hcycle]
  generalize n.toNat = N at *
  constructor
  · rintro ⟨hon, hfirst, hearlier⟩
    have hle := Nat.mod_le j (2 ^ 64)
    have hbehind := hearlier (N - 1)
    rw [Nat.mod_eq_of_lt (Nat.lt_of_le_of_lt (Nat.sub_le N 1) hlt)] at hbehind
    omega
  · intro hj
    refine ⟨by omega, by omega, fun i hi => ?_⟩
    rw [Nat.mod_eq_of_lt (by omega)]
    omega

/-- Otherwise a sum that wraps around is due on the next fetch. -/
theorem firstDue_of_wraps (hwraps : 2 ^ 64 ≤ c.toNat + n.toNat) (hmax : c.toNat ≠ 2 ^ 64 - 1) :
    FirstDue c (c + n) j ↔ j = 0 := by
  have hc := c.toNat_lt
  have hlt := n.toNat_lt
  have hsum : (c.toNat + n.toNat) % 2 ^ 64 = c.toNat + n.toNat - 2 ^ 64 := by omega
  have hnext : (c.toNat + (0 + 1)) % 2 ^ 64 = c.toNat + 1 := by omega
  rw [firstDue_toNat, UInt64.toNat_add, hsum]
  constructor
  · rintro ⟨hon, hfirst, hearlier⟩
    have hafter := hearlier 0
    rw [hnext] at hafter
    omega
  · rintro rfl
    rw [hnext]
    exact ⟨by omega, by omega, fun i hi => absurd hi (Nat.not_lt_zero i)⟩

/-- **The first fetch the boundary of `step n` is due on.** Up to the sentinel it is the `n`-th; a
sum that is the sentinel is never due; one that wraps around is due on the next fetch, unless the
cycle wraps around with it. -/
theorem firstDue_iff (hn : n ≠ 0) :
    FirstDue c (c + n) j ↔
      (c.toNat + n.toNat < 2 ^ 64 - 1 ∨ c = uint64Max) ∧ j + 1 = n.toNat ∨
        (2 ^ 64 ≤ c.toNat + n.toNat ∧ c ≠ uint64Max) ∧ j = 0 := by
  have hpos : 0 < n.toNat := Nat.pos_of_ne_zero fun h => hn (UInt64.toNat.inj h)
  have hc := c.toNat_lt
  rw [ne_eq, eq_uint64Max_iff]
  rcases Nat.lt_or_ge (c.toNat + n.toNat) (2 ^ 64) with hfits | hwraps
  · rw [firstDue_of_fits hpos hfits]
    omega
  · by_cases hmax : c.toNat = 2 ^ 64 - 1
    · rw [firstDue_of_last hpos hmax]
      omega
    · rw [firstDue_of_wraps hwraps hmax]
      omega

end Sum

/-! ## Counting -/

/-- Nothing else stops `step n` first: without its boundary the session gets to the fetch of its
`n`-th cycle. -/
def Undisturbed (io : ReplMode η) (m : Repl η) (n : UInt64) : Prop := GoesOn io m (n.toNat - 1)

/-- `step n` counts `n` cycles: it ends in `HALT_STEP` in the `n`-th cycle from here or not at all,
and it does, unless something else stops it first. -/
structure StepCounts (io : ReplMode η) (m : Repl η) (n : UInt64) : Prop where
  exact : ∀ fuel m', command io fuel m (.step n) = some (.prompt m') → m'.state.halted = .step →
    m'.state.cycleCount.toNat = m.state.cycleCount.toNat + n.toNat
  halts : Undisturbed io m n →
    ∃ fuel m', command io fuel m (.step n) = some (.prompt m') ∧ m'.state.halted = .step

/-- Whether a step counts is a matter of the fetch its boundary is first due on. -/
theorem AtPrompt.stepCounts_iff {io : ReplMode η} {timeline : List (Moment η)} {m : Repl η}
    (h : AtPrompt io timeline m) (hres : m.state.halted.resumable) {n : UInt64} (hn : n ≠ 0) :
    StepCounts io m n ↔
      (∀ j, FirstDue m.state.cycleCount (m.state.cycleCount + n) j → GoesOn io m j →
        (m.state.cycleCount.toNat + (j + 1)) % 2 ^ 64 = m.state.cycleCount.toNat + n.toNat) ∧
      (Undisturbed io m n →
        ∃ j, FirstDue m.state.cycleCount (m.state.cycleCount + n) j ∧ GoesOn io m j) := by
  constructor
  · rintro ⟨hexact, hhalts⟩
    refine ⟨fun j hfirst hgoes => ?_, fun hu => ?_⟩
    · obtain ⟨fuel, m', hm, hstep, hcycle⟩ := h.step_halts hres hn hfirst hgoes
      rw [← add_ofNat_toNat, ← hcycle]
      exact hexact fuel m' hm hstep
    · obtain ⟨fuel, m', hm, hstep⟩ := hhalts hu
      obtain ⟨j, hfirst, hgoes, -⟩ := h.step_halted hres hn hm hstep
      exact ⟨j, hfirst, hgoes⟩
  · rintro ⟨hexact, hhalts⟩
    refine ⟨fun fuel m' hm hstep => ?_, fun hu => ?_⟩
    · obtain ⟨j, hfirst, hgoes, hcycle⟩ := h.step_halted hres hn hm hstep
      rw [hcycle, add_ofNat_toNat]
      exact hexact j hfirst hgoes
    · obtain ⟨j, hfirst, hgoes⟩ := hhalts hu
      obtain ⟨fuel, m', hm, hstep, -⟩ := h.step_halts hres hn hfirst hgoes
      exact ⟨fuel, m', hm, hstep⟩

/-- **When `step n` counts `n` cycles**, at any prompt of any session it can resume. It does as long
as the sum is below `UINT64_MAX`. It never ends in `HALT_STEP` if the sum is that, and ends in it
too early if the sum wraps around, or, from the last cycle there is, in a cycle that wrapped
around; then it counts only if something else stops it. -/
theorem step_counts_iff (io : ReplMode η) (bytes : List UInt8) (e : η)
    (issued : Repl η → Command → Prop) (timeline : List (Moment η)) (lastRun : Nat) (m : Repl η)
    (h : Reached io bytes e issued timeline lastRun m) (hres : m.state.halted.resumable)
    (n : UInt64) (hn : n ≠ 0) :
    StepCounts io m n ↔
      m.state.cycleCount.toNat + n.toNat < 2 ^ 64 - 1 ∨
        ¬ Undisturbed io m n ∧
          (m.state.cycleCount.toNat + n.toNat = 2 ^ 64 - 1 ∨ m.state.cycleCount = uint64Max) := by
  have hpos : 0 < n.toNat := Nat.pos_of_ne_zero fun h0 => hn (UInt64.toNat.inj h0)
  have hsum := m.state.cycleCount.toNat_lt
  rw [(reached_atPrompt h).stepCounts_iff hres hn]
  simp only [firstDue_iff hn, ne_eq, eq_uint64Max_iff]
  unfold Undisturbed
  generalize m.state.cycleCount.toNat = C at *
  generalize n.toNat = N at *
  by_cases hfits : C + N < 2 ^ 64 - 1
  · refine iff_of_true ⟨fun j hdue _ => ?_, fun hu => ⟨N - 1, by omega, hu⟩⟩ (.inl hfits)
    obtain rfl : j = N - 1 := by omega
    rw [Nat.mod_eq_of_lt (by omega)]
    omega
  refine Iff.trans ?_ (or_iff_right hfits).symm
  by_cases hmax : C = 2 ^ 64 - 1
  · -- the register comes to `n - 1`
    constructor
    · rintro ⟨hexact, -⟩
      refine ⟨fun hu => ?_, .inr hmax⟩
      have := hexact (N - 1) (by omega) hu
      omega
    · rintro ⟨hnot, -⟩
      refine ⟨fun j hdue hgoes => absurd hgoes ?_, fun hu => absurd hu hnot⟩
      obtain rfl : j = N - 1 := by omega
      exact hnot
  by_cases hoff : C + N = 2 ^ 64 - 1
  · -- no boundary at all
    constructor
    · rintro ⟨-, hhalts⟩
      refine ⟨fun hu => ?_, .inl hoff⟩
      obtain ⟨j, hdue, -⟩ := hhalts hu
      omega
    · rintro ⟨hnot, -⟩
      exact ⟨fun j hdue _ => by omega, fun hu => absurd hu hnot⟩
  · refine iff_of_false (fun hcounts => ?_) fun hcond => by omega
    have := hcounts.1 0 (by omega) ⟨_, rfl⟩
    omega

/-- `JUMP 0`. -/
def spin : List UInt8 := imageOf [encode 0x07 0 0 0]

/-- From the first prompt, five steps are five. -/
theorem five_steps_count :
    ∃ m : Repl Nat, debugStart (replayMode []) spin 0 = some m ∧
      StepCounts (replayMode []) m 5 := by
  have hstart : (debugStart (replayMode []) spin 0).map
      (fun m => (m.state.halted, m.state.cycleCount)) = some (.running, 0) := by
    decide +kernel
  obtain ⟨m, hm, hseen⟩ := Option.map_eq_some_iff.mp hstart
  obtain ⟨hrun, hzero⟩ := Prod.mk.inj hseen
  have hreached : Reached (replayMode []) spin 0 AnyLine _ _ m := .start hm
  refine ⟨m, hm, (step_counts_iff _ _ _ _ _ _ m hreached (.inl hrun) 5 (by decide)).mpr ?_⟩
  rw [hzero]
  exact .inl (by decide)

/-- **A step of `UINT64_MAX` from cycle 1 ends in cycle 2**: the sum wraps around to 0. -/
theorem longest_step_counts_one :
    ¬ ∀ (bytes : List UInt8) (frames : Trace) (timeline : List (Moment Nat)) (lastRun : Nat)
      (m : Repl Nat), Reached (replayMode frames) bytes 0 AnyLine timeline lastRun m →
        m.state.halted.resumable → ∀ n : UInt64, n ≠ 0 → StepCounts (replayMode frames) m n := by
  intro hall
  have hrun : ((debugStart (replayMode []) spin 0).bind fun m =>
      session (replayMode []) 1 m [.step 1]).map (fun m =>
        (m.state.halted, m.state.cycleCount,
          (session (replayMode []) 1 m [.step uint64Max]).map fun m' =>
            (m'.state.halted, m'.state.cycleCount))) =
      some (.step, 1, some (.step, 2)) := by
    decide +kernel
  obtain ⟨m, hm, hseen⟩ := Option.map_eq_some_iff.mp hrun
  obtain ⟨m₀, hm₀, hsession⟩ := Option.bind_eq_some_iff.mp hm
  simp only [Prod.mk.injEq] at hseen
  obtain ⟨hstep, hone, hagain⟩ := hseen
  obtain ⟨m', hm', hseen'⟩ := Option.map_eq_some_iff.mp hagain
  obtain ⟨hstep', htwo⟩ := Prod.mk.inj hseen'
  obtain ⟨u, hu, hnil⟩ := session_cons hm'
  cases hnil
  obtain ⟨timeline, lastRun, hreached⟩ := reached_session (.start hm₀)
    (fun _ _ _ => trivial) hsession
  have hexact := (hall spin [] timeline lastRun m hreached (.inr (.inl hstep)) uint64Max
    (by decide)).exact 1 m' hu hstep'
  rw [hone, htwo] at hexact
  exact absurd hexact (by decide)

end RetroVM

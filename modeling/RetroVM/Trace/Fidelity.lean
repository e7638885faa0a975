import RetroVM.Trace.Drivers

/-!
# Replay follows the recording (`tests/record_replay.sh`)

The recorder and the replay of its frames run in lock step: registers, memory and cycle agree, and
the cursor is the number of frames recorded so far (`Following`). The replay can only be asked for
a frame the recorder appends in the same turn, so a turn keeps `Following` as long as what the
recorder has written after it is a prefix of the trace. The frames only grow, so that holds of
every turn of a run whose final frames are the trace.

Results:
* `following_turn`: one turn of both.
* `following_after`: any number of turns.
* `replay_follows_record`: the run behind a replay of what was recorded.
* **`record_replay_fidelity`**.
-/

namespace RetroVM

/-- The replay is where the recorder is, its cursor at the number of frames recorded. -/
def Following (m : Machine Recorder) (k : Machine Nat) : Prop :=
  Alike ∅ (fun w cursor => cursor = w.frames.length) [] [] m k ∧
    m.state.halted = .running ∧ m.state.snapInterval = 0 ∧ k.state.snapInterval = 0

/-- The replay ended as the recorder did. -/
def FollowingExit (x : Exit Recorder) (y : Exit Nat) : Prop :=
  AlikeExit ∅ (fun w cursor => cursor = w.frames.length) [] [] x y

/-! ## The frames only grow -/

/-- A turn of the recorder appends the frames it appends, and takes none back. -/
theorem record_turn_frames (stdin rng : Nat → UInt32) {m : Machine Recorder}
    (hi : m.state.snapInterval = 0) :
    m.env.frames <+: (landed (m.cycle (recordEnv stdin rng))).env.frames := by
  rw [cycle_off _ hi]
  by_cases hask : ∃ q dst, decode m.fetched = some (.ask q dst)
  · obtain ⟨q, dst, hd⟩ := hask
    obtain ⟨w', hw, hframes⟩ := consult_record stdin rng q (m.state.cycleCount + 1) m.env
    rw [retire_ask hd, landed_receive, received_env]
    change m.env.frames <+:
      (consult (recordHooks stdin rng) q (m.state.cycleCount + 1) m.env).env.frames
    rw [hw]
    exact hframes ▸ List.prefix_append _ _
  · have hq := retire_quiet (recordEnv stdin rng) m.advance
      fun q dst hd => hask ⟨q, dst, hd⟩
    rw [hq.1]
    exact List.prefix_rfl

/-- What any number of turns of the recorder does to its frames. -/
theorem record_after_frames (stdin rng : Nat → UInt32) {m : Machine Recorder}
    (hi : m.state.snapInterval = 0) (n : Nat) :
    m.env.frames <+:
      (landed (StepLoop.after (Machine.cycle (recordEnv stdin rng)) n m)).env.frames := by
  induction n generalizing m with
  | zero => exact List.prefix_rfl
  | succ n ih =>
    have hturn := record_turn_frames stdin rng hi
    have hint := (cycle_frame (recordEnv stdin rng) m).2.2
    cases hc : m.cycle (recordEnv stdin rng) with
    | ok m' =>
      rw [hc] at hturn hint
      rw [StepLoop.after_succ_ok hc]
      exact hturn.trans (ih (hint.trans hi))
    | error x =>
      rw [hc] at hturn
      rw [StepLoop.after_succ_error hc]
      exact hturn

/-! ## Lock step -/

/-- The frame the recorder appends for a query is the one the replay finds under its cursor. -/
theorem following_answers (stdin rng : Nat → UInt32) {reader : Trace} {q : Query}
    {cycle : UInt64} {w : Recorder}
    (hpre : (consult (recordHooks stdin rng) q cycle w).env.frames <+: reader) :
    Answers (fun (w : Recorder) cursor => cursor = w.frames.length)
      (consult (recordHooks stdin rng) q cycle w)
      (consult (replayHooks reader) q cycle w.frames.length) := by
  obtain ⟨w', hw, hframes⟩ := consult_record stdin rng q cycle w
  rw [hw] at hpre ⊢
  have hget : reader[w.frames.length]? = some ⟨cycle, q.byte, w.answer stdin rng q⟩ := by
    obtain ⟨rest, hrest⟩ := hpre
    rw [← hrest, hframes]
    simp
  rw [consult_replay_hit hget rfl]
  exact ⟨rfl, rfl, rfl, by simp [hframes]⟩

/-- **One turn of both**, as long as what is recorded by then is a prefix of the trace. -/
theorem following_turn (stdin rng : Nat → UInt32) (reader : Trace) {m : Machine Recorder}
    {k : Machine Nat} (h : Following m k)
    (hpre : (landed (m.cycle (recordEnv stdin rng))).env.frames <+: reader) :
    StepLoop.Matched Following FollowingExit (m.cycle (recordEnv stdin rng))
      (k.cycle (replayEnv reader)) := by
  obtain ⟨ha, hr, hm, hk⟩ := h
  have htick : m.advance.snapTick (recordEnv stdin rng) = .ok m.advance := snapTick_off _ hm
  have hmatch := cycle_alike (F := replayEnv reader) ha hr hk htick ha.env
    (fun a _ => Set.notMem_empty a) fun q dst hd => by
      rw [cycle_off _ hm, retire_ask hd, landed_receive, received_env] at hpre
      rw [show k.env = m.env.frames.length from ha.env]
      exact following_answers stdin rng hpre
  rw [Set.empty_sdiff] at hmatch
  refine hmatch.imp (fun u v hu hv huv => ⟨huv, cycle_running hr hu, ?_, ?_⟩) fun _ _ _ _ h => h
  · have := (cycle_frame (recordEnv stdin rng) m).2.2
    rw [hu] at this
    exact this.trans hm
  · have := (cycle_frame (replayEnv reader) k).2.2
    rw [hv] at this
    exact this.trans hk

/-- **Any number of turns of both.** -/
theorem following_after (stdin rng : Nat → UInt32) (reader : Trace) (n : Nat)
    {m : Machine Recorder} {k : Machine Nat} (h : Following m k)
    (hpre : (landed (StepLoop.after (Machine.cycle (recordEnv stdin rng)) n m)).env.frames <+:
      reader) :
    StepLoop.Matched Following FollowingExit
      (StepLoop.after (Machine.cycle (recordEnv stdin rng)) n m)
      (StepLoop.after (Machine.cycle (replayEnv reader)) n k) := by
  induction n generalizing m k with
  | zero => exact .ok h
  | succ n ih =>
    cases hm : m.cycle (recordEnv stdin rng) with
    | ok m' =>
      rw [StepLoop.after_succ_ok hm] at hpre ⊢
      have hint := (cycle_frame (recordEnv stdin rng) m).2.2
      rw [hm] at hint
      have hfirst := (record_after_frames stdin rng (hint.trans h.2.2.1) n).trans hpre
      have hturn := following_turn stdin rng reader h (by rw [hm]; exact hfirst)
      rw [hm] at hturn
      cases hk : k.cycle (replayEnv reader) with
      | ok k' =>
        rw [hk] at hturn
        cases hturn with
        | ok h' =>
          rw [StepLoop.after_succ_ok hk]
          exact ih h' hpre
      | error y =>
        rw [hk] at hturn
        cases hturn
    | error x =>
      rw [StepLoop.after_succ_error hm] at hpre ⊢
      have hturn := following_turn stdin rng reader h (by rw [hm]; exact hpre)
      rw [hm] at hturn
      cases hk : k.cycle (replayEnv reader) with
      | ok k' =>
        rw [hk] at hturn
        cases hturn
      | error y =>
        rw [hk] at hturn
        rw [StepLoop.after_succ_error hk]
        exact hturn

/-! ## Whole runs -/

/-- The run behind a replay of what was recorded: it ends on the turn the recording did, in the
same state, for the same reason, with every frame read. -/
theorem replay_follows_record {bytes : List UInt8} {stdin rng : Nat → UInt32} {fuel : Nat}
    {r : HaltReason} {vm : VM} {frames : Trace}
    (h : cmdRecord bytes stdin rng fuel = some (.halted r vm frames)) :
    ∃ vm0 y, VM.boot bytes = some vm0 ∧
      StepLoop.after (Machine.cycle (replayEnv frames)) fuel (.start vm0 0) = .error y ∧
      y.stop = .returned r ∧ y.machine.env = frames.length ∧ SameVisible vm y.machine.vm := by
  cases hb : VM.boot bytes with
  | none =>
    unfold cmdRecord at h
    rw [hb] at h
    cases h
  | some vm0 =>
    obtain ⟨hrun, hint⟩ := boot_running hb
    obtain ⟨x, hx, hverdict⟩ := (cmdRecord_eq_some_iff hb).mp h
    obtain ⟨hstop, rfl, hframes⟩ := recordVerdict_eq_halted.mp hverdict
    have hfollow : Following (.start vm0 ⟨0, 0, []⟩) (.start vm0 0) :=
      ⟨⟨rfl, rfl, rfl, rfl, fun _ _ => rfl, rfl, rfl⟩, hrun, hint, hint⟩
    have hmatch := following_after stdin rng frames fuel hfollow
    rw [hx] at hmatch
    specialize hmatch (hframes ▸ List.prefix_rfl)
    obtain ⟨y, hy, he⟩ := hmatch.of_error
    refine ⟨vm0, y, rfl, hy, he.stop ▸ hstop, ?_, he.machine.sameVisible⟩
    rw [← hframes]
    exact he.machine.env

/-- **Record/replay fidelity.** If `cmd_record` halts, `cmd_replay` of the same image against the
recorded frames verifies, and ends for the same reason in the same registers, pc, sp, flags, cycle
and memory. -/
theorem record_replay_fidelity (bytes : List UInt8) (stdin rng : Nat → UInt32) (fuel : Nat)
    (r : HaltReason) (vm : VM) (frames : Trace)
    (h : cmdRecord bytes stdin rng fuel = some (.halted r vm frames)) :
    ∃ fuel' vm', cmdReplay bytes frames fuel' = some (.verified r vm') ∧ SameVisible vm vm' := by
  obtain ⟨vm0, y, hb, hy, hstop, hcursor, hsame⟩ := replay_follows_record h
  have hverified : replayVerdict frames y = .verified r y.machine.vm :=
    replayVerdict_eq_verified.mpr ⟨hstop, Nat.le_of_eq hcursor.symm, rfl⟩
  exact ⟨fuel, y.machine.vm, (cmdReplay_eq_some_iff hb).mpr ⟨y, hy, hverified⟩, hsame⟩

/-- `IN R0; RAND R1; STORE R0, 12; HALT`: the store overwrites the next word fetched, whose new
opcode is unknown. -/
theorem record_replay_fidelity_self_modifying :
    ∃ r vm frames fuel vm', frames.length = 2 ∧
      cmdReplay (imageOf [encode 0x09 0 0 0, encode 0x0A 1 0 0, encode 0x02 0 0 12, 0])
        frames fuel = some (.verified r vm') ∧ SameVisible vm vm' := by
  let bytes := imageOf [encode 0x09 0 0 0, encode 0x0A 1 0 0, encode 0x02 0 0 12, 0]
  have hframes : (cmdRecord bytes (fun _ => 0xFFFFFFFF) (fun n => UInt32.ofNat n) 4).bind
      RecordOutcome.frames = some [⟨1, 0x09, 0xFFFFFFFF⟩, ⟨2, 0x0A, 0⟩] := by
    decide +kernel
  obtain ⟨r, vm, hrec⟩ := halted_of_frames hframes
  obtain ⟨fuel, vm', hrep⟩ := record_replay_fidelity bytes _ _ 4 r vm _ hrec
  exact ⟨r, vm, _, fuel, vm', rfl, hrep⟩

end RetroVM

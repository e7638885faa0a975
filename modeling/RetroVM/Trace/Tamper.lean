import RetroVM.Trace.Fidelity
import RetroVM.Trace.Format

/-!
# Traces that were tampered with (`main.cpp`, `cmd_replay`; `trace.cpp`, `TraceReader`)

A replay of what was recorded verifies. Here the trace is another one: up to some frame it is what
was recorded, and there it is not. The replay is where the recorder was until that frame is asked
for, so what it reports is decided by that frame alone: a key that is not the one asked for, or no
frame, is reported with both; a value is not checked, and taken.

Results:
* `record_turn_asks`, `recorder_at_frame`: when a frame was recorded.
* **`tampered_trace_verdict`**: the report on a trace that first differs at frame `i`.
* **`damaged_file_verdict`**, **`resized_file_verdict`**: the report on a recorded file of which one
  byte was changed, that was cut off, or that has bytes behind its end.
-/

namespace RetroVM

/-! ## When a frame was recorded -/

section Recorder

variable {stdin rng : Nat → UInt32}

/-- The recorder with the answer to one more query. -/
def Recorder.asked (stdin rng : Nat → UInt32) (w : Recorder) (q : Query) (cycle : UInt64) :
    Recorder :=
  match q with
  | .input => ⟨w.ins + 1, w.draws, w.frames ++ [⟨cycle, q.byte, stdin w.ins⟩]⟩
  | .random => ⟨w.ins, w.draws + 1, w.frames ++ [⟨cycle, q.byte, rng w.draws⟩]⟩

theorem consult_asked (stdin rng : Nat → UInt32) (q : Query) (cycle : UInt64) (w : Recorder) :
    (consult (recordHooks stdin rng) q cycle w).env = w.asked stdin rng q cycle := by
  cases q <;> rfl

theorem asked_frames (w : Recorder) (q : Query) (cycle : UInt64) :
    (w.asked stdin rng q cycle).frames =
      w.frames ++ [⟨cycle, q.byte, w.answer stdin rng q⟩] := by
  cases q <;> rfl

/-- A turn of the recorder takes the word the query it dispatched asks for, or none. -/
theorem record_turn_asks (stdin rng : Nat → UInt32) {m : Machine Recorder}
    (hi : m.state.snapInterval = 0) :
    (landed (m.cycle (recordEnv stdin rng))).env = m.env ∨
      ∃ q dst, decode m.fetched = some (.ask q dst) ∧
        (landed (m.cycle (recordEnv stdin rng))).env =
          m.env.asked stdin rng q (m.state.cycleCount + 1) := by
  rw [cycle_off _ hi]
  by_cases hask : ∃ q dst, decode m.fetched = some (.ask q dst)
  · obtain ⟨q, dst, hd⟩ := hask
    refine .inr ⟨q, dst, hd, ?_⟩
    rw [retire_ask hd, landed_receive, received_env]
    exact consult_asked stdin rng q (m.state.cycleCount + 1) m.env
  · exact .inl (retire_quiet (recordEnv stdin rng) m.advance
      fun q dst hd => hask ⟨q, dst, hd⟩).1

/-- What is recorded by the end of a run was there as soon as it was recorded. -/
theorem record_leaves_frames {m : Machine Recorder} {x : Exit Recorder}
    (hi : m.state.snapInterval = 0)
    (h : StepLoop.Leaves (Machine.cycle (recordEnv stdin rng)) m x) :
    m.env.frames <+: x.machine.env.frames := by
  obtain ⟨n, hn⟩ := h
  have hpre := record_after_frames stdin rng hi n
  rwa [hn] at hpre

/-- **When frame `i` was recorded**: with `i` frames written the recorder was about to dispatch the
query whose key the frame has. -/
theorem recorder_at_frame {m : Machine Recorder} {x : Exit Recorder}
    (hi : m.state.snapInterval = 0) (hempty : m.env.frames = [])
    (h : StepLoop.Leaves (Machine.cycle (recordEnv stdin rng)) m x) {i : Nat} {f : TraceFrame}
    (hf : x.machine.env.frames[i]? = some f) :
    ∃ n u q dst, StepLoop.after (Machine.cycle (recordEnv stdin rng)) n m = .ok u ∧
      u.env.frames = x.machine.env.frames.take i ∧ decode u.fetched = some (.ask q dst) ∧
        f.key = (u.state.cycleCount + 1, q.byte) := by
  obtain ⟨hlt, hget⟩ := List.getElem?_eq_some_iff.mp hf
  -- the last turn on which at most `i` frames were there
  obtain ⟨n, u, hu, hle, hlast⟩ := h.last_in
    (P := fun k : Machine Recorder => k.env.frames.length ≤ i) (by simp [hempty])
  have hiu : u.state.snapInterval = 0 := StepLoop.after_invariant
    (I := fun k : Machine Recorder => k.state.snapInterval = 0) (fun k k' hk hc => by
      have hframe := (cycle_frame (recordEnv stdin rng) k).2.2
      rw [hc] at hframe
      exact hframe.trans hk) hi hu
  have hrest := h.rest hu
  -- the frames that turn left: more than `i`, and what the run ended with starts with them
  have hturn : i < (landed (u.cycle (recordEnv stdin rng))).env.frames.length ∧
      (landed (u.cycle (recordEnv stdin rng))).env.frames <+: x.machine.env.frames := by
    rcases hlast with ⟨u', hc, hmore⟩ | hc
    · have hiu' : u'.state.snapInterval = 0 := by
        have hframe := (cycle_frame (recordEnv stdin rng) u).2.2
        rw [hc] at hframe
        exact hframe.trans hiu
      rw [hc]
      exact ⟨Nat.lt_of_not_le hmore,
        record_leaves_frames hiu' (hrest.rest ((StepLoop.after_one u).trans hc))⟩
    · rw [hc]
      exact ⟨hlt, List.prefix_rfl⟩
  obtain ⟨hmore, hpre⟩ := hturn
  rcases record_turn_asks stdin rng hiu with hsame | ⟨q, dst, hd, hasked⟩
  · rw [hsame] at hmore
    exact absurd hle (Nat.not_le.mpr hmore)
  · rw [hasked, asked_frames] at hmore hpre
    have hlen : u.env.frames.length = i := by
      rw [List.length_append, List.length_singleton] at hmore
      exact Nat.le_antisymm hle (Nat.lt_succ_iff.mp hmore)
    obtain ⟨tail, htail⟩ := hpre
    refine ⟨n, u, q, dst, hu, ?_, hd, ?_⟩
    · rw [← htail, List.append_assoc, ← hlen, List.take_left']
      rfl
    · have hframe : x.machine.env.frames[i]? =
          some ⟨u.state.cycleCount + 1, q.byte, u.env.answer stdin rng q⟩ := by
        rw [← htail, ← hlen]
        simp
      rw [hf] at hframe
      rw [Option.some.inj hframe]
      rfl

end Recorder

/-! ## Traces that differ from what was recorded -/

/-- How many frames a replay read. -/
def ReplayOutcome.consumed (reader : Trace) : ReplayOutcome → Nat
  | .tooLarge => 0
  | .diverged _ _ _ consumed => consumed
  | .unread count _ _ => reader.length - count
  | .verified _ _ => reader.length

/-- What is reported of a trace that is first something else than what was recorded at frame `i`,
the recording having ended in `vm` for the reason `r`. A frame too many is unread; a frame too few
is missed, in the cycle it was recorded in; another key is reported with the one asked for. Another
value is not noticed: the frame is read. -/
def Reported (bytes : List UInt8) (r : HaltReason) (vm : VM) (frames reader : Trace) (i : Nat) :
    Prop :=
  match frames[i]?, reader[i]? with
  | none, _ => ∃ fuel vm', SameVisible vm vm' ∧
      cmdReplay bytes reader fuel = some (.unread (reader.length - i) r vm')
  | some f, none => ∃ fuel vm', vm'.state.cycleCount = f.cycle ∧
      cmdReplay bytes reader fuel =
        some (.diverged ⟨f.cycle, f.opcode, 0, 0, i, true⟩ .traceEof vm' i)
  | some f, some g =>
    if g.key = f.key then
      ∀ fuel out, cmdReplay bytes reader fuel = some out → i < out.consumed reader
    else ∃ fuel vm', vm'.state.cycleCount = f.cycle ∧
      cmdReplay bytes reader fuel =
        some (.diverged ⟨f.cycle, f.opcode, g.cycle, g.opcode, i, false⟩ .diverged vm' i)

section Replay

variable {bytes : List UInt8} {vm0 : VM} {stdin rng : Nat → UInt32} {reader : Trace}

/-- Where both start. -/
theorem following_start (hb : VM.boot bytes = some vm0) :
    Following (.start vm0 ⟨0, 0, []⟩) (.start vm0 0) := by
  obtain ⟨hrun, hint⟩ := boot_running hb
  exact ⟨⟨rfl, rfl, rfl, rfl, fun _ _ => rfl, rfl, rfl⟩, hrun, hint, hint⟩

/-- A replay that asks for a frame the trace has not, or has with another key, ends there. -/
theorem replay_refused (hb : VM.boot bytes = some vm0) {n : Nat} {k : Machine Nat} {q : Query}
    {dst : Fin 8} {div : TraceMismatch}
    (hn : StepLoop.after (Machine.cycle (replayEnv reader)) n (.start vm0 0) = .ok k)
    (hi : k.state.snapInterval = 0) (hd : decode k.fetched = some (.ask q dst))
    (hc : consult (replayHooks reader) q (k.state.cycleCount + 1) k.env =
      ⟨none, some div, k.env, [.hook q.byte (k.state.cycleCount + 1)]⟩) :
    ∃ vm', vm'.state.cycleCount = k.state.cycleCount + 1 ∧
      cmdReplay bytes reader (n + 1) =
        some (.diverged div (if div.prematureEof then .traceEof else .diverged) vm' k.env) := by
  let refused : Consulted Nat := ⟨none, some div, k.env, [.hook q.byte (k.state.cycleCount + 1)]⟩
  let y : Exit Nat := ⟨(k.advance.dispatched k.fetched).received dst refused, .threw div⟩
  have hcycle : k.cycle (replayEnv reader) = .error y := by
    rw [cycle_off _ hi, retire_ask hd]
    change (k.advance.dispatched k.fetched).receive dst
      (consult (replayHooks reader) q (k.state.cycleCount + 1) k.env) = _
    rw [hc]
    rfl
  refine ⟨y.machine.vm, rfl, (cmdReplay_eq_some_iff hb).mpr ⟨y, ?_, rfl⟩⟩
  rw [StepLoop.after_succ_right hn, hcycle]

/-- A replay that asks for the frame under its cursor goes on behind it. -/
theorem replay_answered {k : Machine Nat} {q : Query} {dst : Fin 8} {f : TraceFrame}
    (hi : k.state.snapInterval = 0) (hd : decode k.fetched = some (.ask q dst))
    (hf : reader[k.env]? = some f) (hkey : f.key = (k.state.cycleCount + 1, q.byte)) :
    ∃ k', k.cycle (replayEnv reader) = .ok k' ∧ k'.env = k.env + 1 := by
  have hcycle : k.cycle (replayEnv reader) = (k.advance.dispatched k.fetched).receive dst
      (consult (replayHooks reader) q (k.state.cycleCount + 1) k.env) := by
    rw [cycle_off _ hi, retire_ask hd]
    rfl
  rw [hcycle, consult_replay_hit hf hkey]
  exact ⟨_, rfl, rfl⟩

/-- The cursor only moves on, and stays within the trace. -/
theorem replay_cursor_le {k : Machine Nat} {y : Exit Nat} (hi : k.state.snapInterval = 0)
    (hin : k.env ≤ reader.length)
    (h : StepLoop.Leaves (Machine.cycle (replayEnv reader)) k y) :
    k.env ≤ y.machine.env ∧ y.machine.env ≤ reader.length := by
  have hturn : ∀ u : Machine Nat, u.state.snapInterval = 0 → u.env ≤ reader.length →
      u.env ≤ (landed (u.cycle (replayEnv reader))).env ∧
        (landed (u.cycle (replayEnv reader))).env ≤ reader.length := by
    intro u hu hle
    rcases cycle_replay_cursor reader hu with hsame | ⟨f, u', hf, -, hc, hnext⟩
    · exact ⟨Nat.le_of_eq hsame.symm, hsame ▸ hle⟩
    · rw [hc]
      exact ⟨hnext ▸ Nat.le_succ _, hnext ▸ (List.getElem?_eq_some_iff.mp hf).1⟩
  refine StepLoop.leaves_invariant
    (I := fun u : Machine Nat =>
      u.state.snapInterval = 0 ∧ k.env ≤ u.env ∧ u.env ≤ reader.length)
    (Q := fun y => k.env ≤ y.machine.env ∧ y.machine.env ≤ reader.length) ?_ ?_
    ⟨hi, Nat.le_refl _, hin⟩ h
  · rintro u u' ⟨hu, hle, hle'⟩ hc
    have hframe := (cycle_frame (replayEnv reader) u).2.2
    have hstep := hturn u hu hle'
    rw [hc] at hframe hstep
    exact ⟨hframe.trans hu, hle.trans hstep.1, hstep.2⟩
  · rintro u y ⟨hu, hle, hle'⟩ hc
    have hstep := hturn u hu hle'
    rw [hc] at hstep
    exact ⟨hle.trans hstep.1, hstep.2⟩

theorem consumed_replayVerdict {y : Exit Nat} (h : y.machine.env ≤ reader.length) :
    (replayVerdict reader y).consumed reader = y.machine.env := by
  unfold replayVerdict
  cases y.stop with
  | threw div => rfl
  | returned r =>
    by_cases hlt : y.machine.env < reader.length
    · simp only [if_pos hlt, ReplayOutcome.consumed]
      omega
    · simp only [if_neg hlt, ReplayOutcome.consumed]
      omega

variable {fuel : Nat} {r : HaltReason} {vm : VM} {frames : Trace} {i : Nat} {f g : TraceFrame}

/-- **A replay comes to frame `i`** if the frames before it are what was recorded: it dispatches the
query the frame was recorded for, with the cursor on it. -/
theorem replay_at_frame (h : cmdRecord bytes stdin rng fuel = some (.halted r vm frames))
    (hf : frames[i]? = some f) (hbefore : reader.take i = frames.take i) :
    ∃ vm0 n k q dst, VM.boot bytes = some vm0 ∧
      StepLoop.after (Machine.cycle (replayEnv reader)) n (.start vm0 0) = .ok k ∧
      k.state.snapInterval = 0 ∧ k.env = i ∧ decode k.fetched = some (.ask q dst) ∧
      f.key = (k.state.cycleCount + 1, q.byte) := by
  obtain ⟨vm0, -, hb, -⟩ := replay_follows_record h
  obtain ⟨x, hx, hverdict⟩ := (cmdRecord_eq_some_iff hb).mp h
  obtain ⟨-, -, rfl⟩ := recordVerdict_eq_halted.mp hverdict
  obtain ⟨n, u, q, dst, hu, hframes, hd, hkey⟩ :=
    recorder_at_frame (boot_running hb).2 rfl ⟨fuel, hx⟩ hf
  have hpre : u.env.frames <+: reader := by
    rw [hframes, ← hbefore]
    exact List.take_prefix i reader
  have hfollow := following_after stdin rng reader n (following_start hb) (by rw [hu]; exact hpre)
  rw [hu] at hfollow
  obtain ⟨k, hk, halike, -, -, hik⟩ := hfollow.of_ok
  have hlt := (List.getElem?_eq_some_iff.mp hf).1
  refine ⟨vm0, n, k, q, dst, hb, hk, hik, ?_, ?_, ?_⟩
  · rw [halike.env, hframes, List.length_take, Nat.min_eq_left (Nat.le_of_lt hlt)]
  · rwa [← halike.fetched fun a _ => Set.notMem_empty a]
  · rw [← halike.cycleCount]
    exact hkey

/-- A frame that is missing. -/
theorem replay_missing (h : cmdRecord bytes stdin rng fuel = some (.halted r vm frames))
    (hf : frames[i]? = some f) (hbefore : reader.take i = frames.take i)
    (hg : reader[i]? = none) :
    ∃ fuel vm', vm'.state.cycleCount = f.cycle ∧ cmdReplay bytes reader fuel =
      some (.diverged ⟨f.cycle, f.opcode, 0, 0, i, true⟩ .traceEof vm' i) := by
  obtain ⟨vm0, n, k, q, dst, hb, hk, hik, rfl, hd, hkey⟩ := replay_at_frame h hf hbefore
  obtain ⟨hcycle, hop⟩ := Prod.mk.inj hkey
  obtain ⟨vm', hcount, hrun⟩ := replay_refused hb hk hik hd (consult_replay_end hg)
  rw [hcycle, hop]
  exact ⟨n + 1, vm', hcount, hrun⟩

/-- A frame with another key. -/
theorem replay_other_key (h : cmdRecord bytes stdin rng fuel = some (.halted r vm frames))
    (hf : frames[i]? = some f) (hbefore : reader.take i = frames.take i)
    (hg : reader[i]? = some g) (hother : g.key ≠ f.key) :
    ∃ fuel vm', vm'.state.cycleCount = f.cycle ∧ cmdReplay bytes reader fuel =
      some (.diverged ⟨f.cycle, f.opcode, g.cycle, g.opcode, i, false⟩ .diverged vm' i) := by
  obtain ⟨vm0, n, k, q, dst, hb, hk, hik, rfl, hd, hkey⟩ := replay_at_frame h hf hbefore
  obtain ⟨hcycle, hop⟩ := Prod.mk.inj hkey
  obtain ⟨vm', hcount, hrun⟩ := replay_refused hb hk hik hd
    (consult_replay_miss hg fun hsame => hother (hsame.trans hkey.symm))
  rw [hcycle, hop]
  exact ⟨n + 1, vm', hcount, hrun⟩

/-- A frame with the key, whatever its value. -/
theorem replay_reads_on (h : cmdRecord bytes stdin rng fuel = some (.halted r vm frames))
    (hf : frames[i]? = some f) (hbefore : reader.take i = frames.take i)
    (hg : reader[i]? = some g) (hsame : g.key = f.key) {fuel' : Nat} {out : ReplayOutcome}
    (hout : cmdReplay bytes reader fuel' = some out) : i < out.consumed reader := by
  obtain ⟨vm0, n, k, q, dst, hb, hk, hik, rfl, hd, hkey⟩ := replay_at_frame h hf hbefore
  obtain ⟨y, hy, rfl⟩ := (cmdReplay_eq_some_iff hb).mp hout
  obtain ⟨k', hcycle, hnext⟩ := replay_answered hik hd hg (hsame.trans hkey)
  have hik' : k'.state.snapInterval = 0 := by
    have hframe := (cycle_frame (replayEnv reader) k).2.2
    rw [hcycle] at hframe
    exact hframe.trans hik
  have hin : k'.env ≤ reader.length := by
    rw [hnext]
    exact (List.getElem?_eq_some_iff.mp hg).1
  have hrest := StepLoop.Leaves.rest hk ⟨fuel', hy⟩
  have hcursor := replay_cursor_le hik' hin (hrest.rest ((StepLoop.after_one k).trans hcycle))
  rw [consumed_replayVerdict hcursor.2]
  omega

/-- Frames behind the last. -/
theorem replay_surplus (h : cmdRecord bytes stdin rng fuel = some (.halted r vm frames))
    (hpre : frames <+: reader) (hlt : frames.length < reader.length) :
    ∃ fuel vm', SameVisible vm vm' ∧
      cmdReplay bytes reader fuel = some (.unread (reader.length - frames.length) r vm') := by
  obtain ⟨vm0, -, hb, -⟩ := replay_follows_record h
  obtain ⟨x, hx, hverdict⟩ := (cmdRecord_eq_some_iff hb).mp h
  obtain ⟨hstop, rfl, rfl⟩ := recordVerdict_eq_halted.mp hverdict
  have hfollow := following_after stdin rng reader fuel (following_start hb)
    (by rw [hx]; exact hpre)
  rw [hx] at hfollow
  obtain ⟨y, hy, he⟩ := hfollow.of_error
  refine ⟨fuel, y.machine.vm, he.machine.sameVisible, (cmdReplay_eq_some_iff hb).mpr ⟨y, hy, ?_⟩⟩
  have hcursor : y.machine.env = x.machine.env.frames.length := he.machine.env
  unfold replayVerdict
  rw [← he.stop, hstop, hcursor]
  exact if_pos hlt

/-- **The verdict on a trace that was tampered with.** Whatever was recorded, and whatever is in the
trace from frame `i` on, frames before it being what was recorded. -/
theorem tampered_trace_verdict (bytes : List UInt8) (stdin rng : Nat → UInt32) (fuel : Nat)
    (r : HaltReason) (vm : VM) (frames : Trace)
    (h : cmdRecord bytes stdin rng fuel = some (.halted r vm frames)) (reader : Trace) (i : Nat)
    (hbefore : reader.take i = frames.take i) (hhere : reader[i]? ≠ frames[i]?) :
    Reported bytes r vm frames reader i := by
  unfold Reported
  cases hf : frames[i]? with
  | none =>
    -- the recording is over before frame `i` would have been recorded
    have hall : reader.take i = frames := by
      rw [hbefore, List.take_of_length_le (List.getElem?_eq_none_iff.mp hf)]
    have hlt : i < reader.length := by
      by_contra hge
      exact hhere (by rw [hf, List.getElem?_eq_none (Nat.le_of_not_lt hge)])
    have hlen : frames.length = i := by
      rw [← hall, List.length_take, Nat.min_eq_left (Nat.le_of_lt hlt)]
    have hpre : frames <+: reader := hall ▸ List.take_prefix i reader
    rw [← hlen]
    exact replay_surplus h hpre (hlen.symm ▸ hlt)
  | some f =>
    cases hg : reader[i]? with
    | none => exact replay_missing h hf hbefore hg
    | some g =>
      by_cases hsame : g.key = f.key
      · simp only [if_pos hsame]
        exact fun fuel' out hout => replay_reads_on h hf hbefore hg hsame hout
      · simp only [if_neg hsame]
        exact replay_other_key h hf hbefore hg hsame

/-- `IN R0; HALT`, its frame made a `RAND` frame. -/
theorem tampered_trace_verdict_rand :
    ∃ fuel vm', cmdReplay (imageOf [encode 0x09 0 0 0, 0]) [⟨1, 0x0A, 7⟩] fuel =
      some (.diverged ⟨1, 0x09, 1, 0x0A, 0, false⟩ .diverged vm' 0) := by
  let bytes := imageOf [encode 0x09 0 0 0, 0]
  have hframes : (cmdRecord bytes (fun _ => 7) (fun _ => 0) 2).bind RecordOutcome.frames =
      some [⟨1, 0x09, 7⟩] := by
    decide +kernel
  obtain ⟨r, vm, hrec⟩ := halted_of_frames hframes
  have hreported := tampered_trace_verdict bytes _ _ 2 r vm _ hrec [⟨1, 0x0A, 7⟩] 0 rfl (by decide)
  obtain ⟨fuel, vm', -, hrun⟩ := hreported
  exact ⟨fuel, vm', hrun⟩

end Replay

/-! ## Bytes of a frame -/

/-- The halves of a 64-bit word are the words it was made of. -/
theorem dword_parts (lo hi : UInt32) :
    (lo.toUInt64 ||| (hi.toUInt64 <<< 32)).toUInt32 = lo ∧
      ((lo.toUInt64 ||| (hi.toUInt64 <<< 32)) >>> 32).toUInt32 = hi := by
  constructor
  · apply UInt32.toBitVec_inj.mp
    ext i hi
    simp
  · apply UInt32.toBitVec_inj.mp
    ext i hi
    simp
    grind

theorem dwordAt_inj {a b : List UInt8} {off : Nat} (h : dwordAt a off = dwordAt b off) {k : Nat}
    (hk : k < 8) : a.getD (off + k) 0 = b.getD (off + k) 0 := by
  have hlow := congrArg UInt64.toUInt32 h
  have hhigh := congrArg (fun c : UInt64 => (c >>> 32).toUInt32) h
  unfold dwordAt at hlow hhigh
  simp only [(dword_parts _ _).1, (dword_parts _ _).2] at hlow hhigh
  by_cases hk4 : k < 4
  · exact wordAt_inj hlow hk4
  · have hbyte := wordAt_inj hhigh (k := k - 4) (by omega)
    rwa [show off + 4 + (k - 4) = off + k by omega] at hbyte

theorem wordAt_congr {a b : List UInt8} {off : Nat}
    (h : ∀ k < 4, a.getD (off + k) 0 = b.getD (off + k) 0) : wordAt a off = wordAt b off := by
  have h0 := h 0 (by decide)
  unfold wordAt
  rw [Nat.add_zero] at h0
  rw [h0, h 1 (by decide), h 2 (by decide), h 3 (by decide)]

theorem dwordAt_congr {a b : List UInt8} {off : Nat}
    (h : ∀ k < 8, a.getD (off + k) 0 = b.getD (off + k) 0) : dwordAt a off = dwordAt b off := by
  have hlow : wordAt a off = wordAt b off := wordAt_congr fun k hk => h k (by omega)
  have hhigh : wordAt a (off + 4) = wordAt b (off + 4) := wordAt_congr fun k hk => by
    rw [Nat.add_assoc]
    exact h (4 + k) (by omega)
  unfold dwordAt
  rw [hlow, hhigh]

/-- **The key of a frame is its first nine bytes.** -/
theorem key_frameOf_iff {a b : List UInt8} {off : Nat} :
    (frameOf a off).key = (frameOf b off).key ↔
      ∀ k < 9, a.getD (off + k) 0 = b.getD (off + k) 0 := by
  constructor
  · intro h k hk
    obtain ⟨hcycle, hop⟩ := Prod.mk.inj h
    by_cases hk8 : k < 8
    · exact dwordAt_inj hcycle hk8
    · obtain rfl : k = 8 := by omega
      exact hop
  · intro h
    exact Prod.ext (dwordAt_congr fun k hk => h k (by omega)) (h 8 (by decide))

/-- Its value is the last four. -/
theorem value_frameOf_iff {a b : List UInt8} {off : Nat} :
    (frameOf a off).value = (frameOf b off).value ↔
      ∀ k < 4, a.getD (off + 12 + k) 0 = b.getD (off + 12 + k) 0 :=
  ⟨fun h _ hk => wordAt_inj h hk, fun h => wordAt_congr h⟩

theorem frame_ext {f g : TraceFrame} (hkey : f.key = g.key) (hvalue : f.value = g.value) :
    f = g := by
  obtain ⟨hcycle, hop⟩ := Prod.mk.inj hkey
  cases f
  cases g
  simp_all

/-- A frame is its sixteen bytes. -/
theorem frameOf_congr {a b : List UInt8} {off : Nat}
    (h : ∀ k < 16, a.getD (off + k) 0 = b.getD (off + k) 0) : frameOf a off = frameOf b off := by
  refine frame_ext (key_frameOf_iff.mpr fun k hk => h k (by omega))
    (value_frameOf_iff.mpr fun k hk => ?_)
  rw [Nat.add_assoc]
  exact h (12 + k) (by omega)

/-! ## Damaged files -/

/-- The file of a recording. -/
def traceFile (frames : Trace) : List UInt8 := TraceWriter.flushToFile ⟨frames⟩

section Files

variable {frames : Trace}

theorem traceFile_length (frames : Trace) : (traceFile frames).length = 16 + 16 * frames.length :=
  flushToFile_length ⟨frames⟩

/-- The header of a recording. -/
theorem traceFile_header (frames : Trace) :
    (traceFile frames).take 8 = traceMagic ∧ wordAt (traceFile frames) 8 = 1 := by
  obtain ⟨r, hr, -⟩ := ofFile_flushToFile ⟨frames⟩
  obtain ⟨-, hmagic, hversion⟩ := ofFile_eq_ok hr
  exact ⟨hmagic, hversion⟩

/-- The frames of a recording are what is read at their places in its file. -/
theorem frameOf_traceFile {i : Nat} {f : TraceFrame} (h : frames[i]? = some f) :
    frameOf (traceFile frames) (16 + i * 16) = f := by
  obtain ⟨r, hr, hcount, hframe⟩ := ofFile_flushToFile ⟨frames⟩
  have hi : i < r.frameCount := hcount ▸ (List.getElem?_eq_some_iff.mp h).1
  have hat := hframe i
  unfold TraceReader.frameAt at hat
  rw [if_neg (Nat.not_le.mpr hi), h, (ofFile_eq_ok hr).1] at hat
  exact Option.some.inj hat

theorem frames_length (r : TraceReader) : r.frames.length = r.frameCount := by
  unfold TraceReader.frames
  rw [List.length_map, List.length_range]

/-- A file with the header of a trace and room for `n` frames is accepted; its frames are what is
read at their places. -/
theorem ofFile_frames {file : List UInt8} {n : Nat} (hlen : file.length = 16 + 16 * n)
    (hmagic : file.take 8 = traceMagic) (hversion : wordAt file 8 = 1) :
    ∃ reader, TraceReader.ofFile file = .ok reader ∧
      ∀ i, reader.frames[i]? = if i < n then some (frameOf file (16 + i * 16)) else none := by
  obtain ⟨reader, hr, hcount⟩ := ofFile_accepts_iff.mpr ⟨hlen, hmagic, hversion⟩
  refine ⟨reader, hr, fun i => ?_⟩
  rw [frames_getElem?]
  unfold TraceReader.frameAt
  rw [hcount, (ofFile_eq_ok hr).1]
  by_cases hi : i < n
  · rw [if_neg (Nat.not_le.mpr hi), if_pos hi]
  · rw [if_pos (Nat.le_of_not_lt hi), if_neg hi]

theorem getD_set {file : List UInt8} {p : Nat} (hp : p < file.length) (b : UInt8) (q : Nat) :
    (file.set p b).getD q 0 = if q = p then b else file.getD q 0 := by
  by_cases hq : q = p
  · subst hq
    rw [if_pos rfl, List.getD_eq_getElem?_getD, List.getElem?_set_self hp]
    rfl
  · rw [if_neg hq, List.getD_eq_getElem?_getD, List.getElem?_set_ne (Ne.symm hq),
      ← List.getD_eq_getElem?_getD]

/-- A change behind the version leaves the header. -/
theorem header_set {p : Nat} (hp : p < (traceFile frames).length) (hbehind : 12 ≤ p) (b : UInt8) :
    ((traceFile frames).set p b).take 8 = traceMagic ∧
      wordAt ((traceFile frames).set p b) 8 = 1 := by
  obtain ⟨hmagic, hversion⟩ := traceFile_header frames
  constructor
  · rw [List.take_set_of_le (by omega), hmagic]
  · rw [← hversion]
    refine wordAt_congr fun k hk => ?_
    rw [getD_set hp, if_neg (by omega)]

/-- A change of the magic or the version is not accepted. -/
theorem header_damaged {p : Nat} {b : UInt8} (hp : p < 12)
    (hb : (traceFile frames)[p]? ≠ some b) :
    ∃ e, TraceReader.ofFile ((traceFile frames).set p b) = .error e := by
  have hlen := traceFile_length frames
  have hlt : p < (traceFile frames).length := by omega
  obtain ⟨hmagic, hversion⟩ := traceFile_header frames
  have hother : ((traceFile frames).set p b).getD p 0 ≠ (traceFile frames).getD p 0 := by
    rw [getD_set hlt, if_pos rfl]
    intro heq
    apply hb
    rw [heq, List.getD_eq_getElem?_getD, List.getElem?_eq_getElem hlt]
    rfl
  cases hr : TraceReader.ofFile ((traceFile frames).set p b) with
  | error e => exact ⟨e, rfl⟩
  | ok reader =>
    obtain ⟨-, hmagic', hversion'⟩ := ofFile_eq_ok hr
    exfalso
    by_cases hp8 : p < 8
    · apply hother
      have htake := congrArg (fun l => l.getD p 0) (hmagic'.trans hmagic.symm)
      simpa only [List.getD_eq_getElem?_getD, List.getElem?_take_of_lt hp8] using htake
    · apply hother
      have hbyte := wordAt_inj (hversion'.trans hversion.symm) (k := p - 8) (by omega)
      rwa [Nat.add_sub_cancel' (Nat.le_of_not_lt hp8)] at hbyte

/-- Where a change in frame `i` shows: in its key, in its value, or nowhere. -/
theorem frame_damaged {i k : Nat} {f : TraceFrame} (hf : frames[i]? = some f) (hk : k < 16)
    {b : UInt8} (hb : (traceFile frames)[16 + i * 16 + k]? ≠ some b) :
    let g := frameOf ((traceFile frames).set (16 + i * 16 + k) b) (16 + i * 16)
    (g.key = f.key ↔ 9 ≤ k) ∧ (g.value = f.value ↔ k < 12) := by
  have hi := (List.getElem?_eq_some_iff.mp hf).1
  have hlen := traceFile_length frames
  have hlt : 16 + i * 16 + k < (traceFile frames).length := by omega
  have hother : b ≠ (traceFile frames).getD (16 + i * 16 + k) 0 := by
    intro heq
    apply hb
    rw [heq, List.getD_eq_getElem?_getD, List.getElem?_eq_getElem hlt]
    rfl
  have hold := frameOf_traceFile hf
  simp only
  rw [← hold, key_frameOf_iff, value_frameOf_iff]
  constructor
  · constructor
    · intro hall
      by_contra hlow
      have hbyte := hall k (Nat.lt_of_not_le hlow)
      rw [getD_set hlt, if_pos rfl] at hbyte
      exact hother hbyte
    · intro hhigh j hj
      rw [getD_set hlt, if_neg (by omega)]
  · constructor
    · intro hall
      by_contra hhigh
      have hbyte := hall (k - 12) (by omega)
      rw [show 16 + i * 16 + 12 + (k - 12) = 16 + i * 16 + k by omega, getD_set hlt,
        if_pos rfl] at hbyte
      exact hother hbyte
    · intro hlow j hj
      rw [getD_set hlt, if_neg (by omega)]

/-- The other frames are what they were. -/
theorem frame_undamaged {i p : Nat} {f : TraceFrame} (hf : frames[i]? = some f)
    (hp : p < (traceFile frames).length) (hother : p < 16 + i * 16 ∨ 16 + i * 16 + 16 ≤ p)
    (b : UInt8) : frameOf ((traceFile frames).set p b) (16 + i * 16) = f := by
  rw [← frameOf_traceFile hf]
  refine frameOf_congr fun k hk => ?_
  rw [getD_set hp, if_neg (by omega)]

/-- A file changed behind its version is accepted. -/
theorem ofFile_set {p : Nat} (hp : p < (traceFile frames).length) (hbehind : 12 ≤ p) (b : UInt8) :
    ∃ reader, TraceReader.ofFile ((traceFile frames).set p b) = .ok reader ∧
      (∀ i < frames.length,
        reader.frames[i]? = some (frameOf ((traceFile frames).set p b) (16 + i * 16))) ∧
      ∀ j, p < 16 + j * 16 ∨ 16 + j * 16 + 16 ≤ p → reader.frames[j]? = frames[j]? := by
  obtain ⟨hmagic, hversion⟩ := header_set hp hbehind b
  obtain ⟨reader, hreader, hframes⟩ := ofFile_frames
    (by rw [List.length_set, traceFile_length]) hmagic hversion
  refine ⟨reader, hreader, fun i hi => ?_, fun j hj => ?_⟩
  · rw [hframes, if_pos hi]
  · rw [hframes]
    by_cases hlt : j < frames.length
    · rw [if_pos hlt, List.getElem?_eq_getElem hlt,
        frame_undamaged (List.getElem?_eq_getElem hlt) hp hj b]
    · rw [if_neg hlt, List.getElem?_eq_none (Nat.le_of_not_lt hlt)]

/-- What is left of a file that was cut off, if it is accepted, is its first frames. -/
theorem ofFile_take {n : Nat} (hn : n < (traceFile frames).length) {reader : TraceReader}
    (hr : TraceReader.ofFile ((traceFile frames).take n) = .ok reader) :
    reader.frameCount < frames.length ∧ reader.frames = frames.take reader.frameCount := by
  have hlen := traceFile_length frames
  have hcut : ((traceFile frames).take n).length = n := by
    rw [List.length_take, Nat.min_eq_left (Nat.le_of_lt hn)]
  obtain ⟨hsize, hmagic, hversion⟩ := ofFile_accepts_iff.mp ⟨reader, hr, rfl⟩
  obtain ⟨reader', hr', hframes⟩ := ofFile_frames hsize hmagic hversion
  obtain rfl : reader = reader' := Except.ok.inj (hr.symm.trans hr')
  rw [hcut] at hsize
  have hi : reader.frameCount < frames.length := by omega
  refine ⟨hi, List.ext_getElem? fun j => ?_⟩
  rw [hframes]
  by_cases hj : j < reader.frameCount
  · have hf := List.getElem?_eq_getElem (Nat.lt_trans hj hi)
    rw [if_pos hj, List.getElem?_take_of_lt hj, hf, ← frameOf_traceFile hf]
    refine congrArg some (frameOf_congr fun k hk => ?_)
    rw [List.getD_eq_getElem?_getD, List.getElem?_take_of_lt (by omega),
      List.getD_eq_getElem?_getD]
  · rw [if_neg hj, List.getElem?_take_eq_none (Nat.le_of_not_lt hj)]

/-- A file with bytes behind its end, if it is accepted, has frames behind those recorded. -/
theorem ofFile_append {extra : List UInt8} {reader : TraceReader}
    (hr : TraceReader.ofFile (traceFile frames ++ extra) = .ok reader) :
    frames <+: reader.frames ∧ 16 * reader.frames.length = 16 * frames.length + extra.length := by
  have hlen := traceFile_length frames
  have hcount := frames_length reader
  obtain ⟨hsize, hmagic, hversion⟩ := ofFile_accepts_iff.mp ⟨reader, hr, rfl⟩
  obtain ⟨reader', hr', hframes⟩ := ofFile_frames hsize hmagic hversion
  obtain rfl : reader = reader' := Except.ok.inj (hr.symm.trans hr')
  rw [List.length_append] at hsize
  refine ⟨List.prefix_iff_getElem?.mpr fun j hj => ?_, by omega⟩
  have hf := List.getElem?_eq_getElem hj
  rw [hframes, if_pos (by omega), ← frameOf_traceFile hf]
  refine congrArg some (frameOf_congr fun k hk => ?_)
  rw [List.getD_append _ _ _ _ (by omega)]

/-- A recording is replayed. -/
theorem replay_of_record {bytes : List UInt8} {stdin rng : Nat → UInt32} {fuel fuel' : Nat}
    {r : HaltReason} {vm : VM}
    (h : cmdRecord bytes stdin rng fuel = some (.halted r vm frames)) (hle : fuel ≤ fuel') :
    ∃ vm', SameVisible vm vm' ∧ cmdReplay bytes frames fuel' = some (.verified r vm') := by
  obtain ⟨vm0, y, hboot, hy, hstop, hcursor, hvisible⟩ := replay_follows_record h
  obtain ⟨k, rfl⟩ := Nat.exists_eq_add_of_le hle
  exact ⟨y.machine.vm, hvisible, (cmdReplay_eq_some_iff hboot).mpr
    ⟨y, StepLoop.after_add_error hy k,
      replayVerdict_eq_verified.mpr ⟨hstop, Nat.le_of_eq hcursor.symm, rfl⟩⟩⟩

/-- What is reported of a recorded file of which byte `p`, behind the version, was changed: nothing,
in the reserved word and in the padding of a frame; the frame, if the byte is of its key; and
nothing is known if it is of its value, which is the only thing changed. -/
def DamageReported (bytes : List UInt8) (r : HaltReason) (vm : VM) (frames reader : Trace)
    (p : Nat) : Prop :=
  let i := (p - 16) / 16
  let k := (p - 16) % 16
  if p < 16 ∨ 9 ≤ k ∧ k < 12 then
    ∃ fuel vm', SameVisible vm vm' ∧ cmdReplay bytes reader fuel = some (.verified r vm')
  else ∃ f g, frames[i]? = some f ∧ reader = frames.set i g ∧
    if k < 9 then ∃ fuel vm', cmdReplay bytes reader fuel =
      some (.diverged ⟨f.cycle, f.opcode, g.cycle, g.opcode, i, false⟩ .diverged vm' i)
    else g.key = f.key ∧ g.value ≠ f.value

/-- Frames with one of them changed. -/
theorem frames_set {reader : Trace} {i : Nat} {g : TraceFrame} (hi : i < frames.length)
    (hg : reader[i]? = some g) (hothers : ∀ j, j ≠ i → reader[j]? = frames[j]?) :
    reader = frames.set i g := by
  apply List.ext_getElem?
  intro j
  by_cases hj : j = i
  · rw [hj, hg, List.getElem?_set_self hi]
  · rw [hothers j hj, List.getElem?_set_ne (Ne.symm hj)]

/-- **The verdict on a damaged file.** Change any one byte of a recorded file: in the magic or the
version, and the file is not accepted; elsewhere it is, and the replay reports as
`DamageReported` says. -/
theorem damaged_file_verdict (bytes : List UInt8) (stdin rng : Nat → UInt32) (fuel : Nat)
    (r : HaltReason) (vm : VM) (frames : Trace)
    (h : cmdRecord bytes stdin rng fuel = some (.halted r vm frames)) (p : Nat) (b : UInt8)
    (hp : p < (traceFile frames).length) (hb : (traceFile frames)[p]? ≠ some b) :
    if p < 12 then ∃ e, TraceReader.ofFile ((traceFile frames).set p b) = .error e
    else ∃ reader, TraceReader.ofFile ((traceFile frames).set p b) = .ok reader ∧
      DamageReported bytes r vm frames reader.frames p := by
  by_cases hheader : p < 12
  · rw [if_pos hheader]
    exact header_damaged hheader hb
  rw [if_neg hheader]
  have hlen := traceFile_length frames
  obtain ⟨reader, hreader, hframes, hother⟩ := ofFile_set hp (Nat.le_of_not_lt hheader) b
  refine ⟨reader, hreader, ?_⟩
  have hverified : reader.frames = frames → ∃ fuel vm', SameVisible vm vm' ∧
      cmdReplay bytes reader.frames fuel = some (.verified r vm') := by
    intro hsame
    rw [hsame]
    exact ⟨fuel, replay_of_record h (Nat.le_refl fuel)⟩
  unfold DamageReported
  simp only
  by_cases hreserved : p < 16
  · rw [if_pos (.inl hreserved)]
    exact hverified (List.ext_getElem? fun j => hother j (.inl (by omega)))
  -- byte `k` of frame `i`
  obtain ⟨i, k, hk, rfl⟩ : ∃ i k, k < 16 ∧ p = 16 + i * 16 + k :=
    ⟨(p - 16) / 16, (p - 16) % 16, by omega, by omega⟩
  have hi : i < frames.length := by omega
  rw [show (16 + i * 16 + k - 16) / 16 = i by omega, show (16 + i * 16 + k - 16) % 16 = k by omega]
  have hf := List.getElem?_eq_getElem hi
  generalize frames[i] = f at hf
  obtain ⟨hkey, hvalue⟩ := frame_damaged hf hk hb
  have hg := hframes i hi
  generalize frameOf ((traceFile frames).set (16 + i * 16 + k) b) (16 + i * 16) = g at *
  have hset := frames_set hi hg fun j hj => hother j (by omega)
  by_cases hpad : 9 ≤ k ∧ k < 12
  · rw [if_pos (.inr hpad)]
    have hsame := frame_ext (hkey.mpr hpad.1) (hvalue.mpr hpad.2)
    refine hverified (List.ext_getElem? fun j => ?_)
    by_cases hj : j = i
    · rw [hj, hg, hf, hsame]
    · exact hother j (by omega)
  · rw [if_neg (not_or.mpr ⟨hreserved, hpad⟩)]
    refine ⟨f, g, hf, hset, ?_⟩
    by_cases hlow : k < 9
    · rw [if_pos hlow]
      have hbefore : reader.frames.take i = frames.take i := by
        rw [hset, List.take_set_of_le (Nat.le_refl i)]
      obtain ⟨fuel', vm', -, hrun⟩ := replay_other_key h hf hbefore hg
        (mt hkey.mp (Nat.not_le.mpr hlow))
      exact ⟨fuel', vm', hrun⟩
    · rw [if_neg hlow]
      exact ⟨hkey.mpr (Nat.le_of_not_lt hlow), mt hvalue.mp (by omega)⟩

/-- `IN R0; HALT`, the opcode of its frame overwritten. -/
theorem damaged_file_verdict_opcode :
    ∃ reader, TraceReader.ofFile ((traceFile [⟨1, 0x09, 7⟩]).set 24 0xFF) = .ok reader ∧
      ∃ g : TraceFrame, ∃ fuel vm', cmdReplay (imageOf [encode 0x09 0 0 0, 0]) reader.frames fuel =
        some (.diverged ⟨1, 0x09, g.cycle, g.opcode, 0, false⟩ .diverged vm' 0) := by
  let bytes := imageOf [encode 0x09 0 0 0, 0]
  have hframes : (cmdRecord bytes (fun _ => 7) (fun _ => 0) 2).bind RecordOutcome.frames =
      some [⟨1, 0x09, 7⟩] := by
    decide +kernel
  obtain ⟨r, vm, hrec⟩ := halted_of_frames hframes
  have hverdict := damaged_file_verdict bytes _ _ 2 r vm _ hrec 24 0xFF (by decide) (by decide)
  rw [if_neg (by decide)] at hverdict
  obtain ⟨reader, hreader, f, g, hf, -, fuel, vm', hrun⟩ := hverdict
  obtain rfl : (⟨1, 0x09, 7⟩ : TraceFrame) = f := Option.some.inj hf
  exact ⟨reader, hreader, g, fuel, vm', hrun⟩

/-- **The verdict on a file of another length.** A recorded file cut off at any byte is not
accepted, or the replay misses the first frame that is gone; a file with bytes behind its end is
not accepted, or the replay leaves the frames they make unread. -/
theorem resized_file_verdict (bytes : List UInt8) (stdin rng : Nat → UInt32) (fuel : Nat)
    (r : HaltReason) (vm : VM) (frames : Trace)
    (h : cmdRecord bytes stdin rng fuel = some (.halted r vm frames)) :
    (∀ n < (traceFile frames).length,
      (∃ e, TraceReader.ofFile ((traceFile frames).take n) = .error e) ∨
        ∃ reader i f fuel vm', TraceReader.ofFile ((traceFile frames).take n) = .ok reader ∧
          reader.frames = frames.take i ∧ frames[i]? = some f ∧
          cmdReplay bytes reader.frames fuel =
            some (.diverged ⟨f.cycle, f.opcode, 0, 0, i, true⟩ .traceEof vm' i)) ∧
    ∀ extra, extra ≠ [] →
      (∃ e, TraceReader.ofFile (traceFile frames ++ extra) = .error e) ∨
        ∃ reader fuel vm', TraceReader.ofFile (traceFile frames ++ extra) = .ok reader ∧
          SameVisible vm vm' ∧
          cmdReplay bytes reader.frames fuel = some (.unread (extra.length / 16) r vm') := by
  constructor
  · intro n hn
    cases hr : TraceReader.ofFile ((traceFile frames).take n) with
    | error e => exact .inl ⟨e, rfl⟩
    | ok reader =>
      obtain ⟨hi, hcut⟩ := ofFile_take hn hr
      have hbefore : reader.frames.take reader.frameCount = frames.take reader.frameCount := by
        rw [hcut, List.take_take, Nat.min_self]
      have hgone : reader.frames[reader.frameCount]? = none := by
        rw [hcut, List.getElem?_take_eq_none (Nat.le_refl _)]
      obtain ⟨fuel', vm', -, hrun⟩ := replay_missing h (List.getElem?_eq_getElem hi) hbefore hgone
      exact .inr ⟨reader, _, _, fuel', vm', rfl, hcut, List.getElem?_eq_getElem hi, hrun⟩
  · intro extra hne
    cases hr : TraceReader.ofFile (traceFile frames ++ extra) with
    | error e => exact .inl ⟨e, rfl⟩
    | ok reader =>
      obtain ⟨hpre, hlength⟩ := ofFile_append hr
      have hpos := List.length_pos_iff.mpr hne
      have hextra : reader.frames.length - frames.length = extra.length / 16 := by omega
      obtain ⟨fuel', vm', hvisible, hrun⟩ := replay_surplus h hpre (by omega)
      exact .inr ⟨reader, fuel', vm', rfl, hvisible, hextra ▸ hrun⟩

/-- `IN R0; HALT`, its file cut after the header, and with a frame of zeros behind it. -/
theorem resized_file_verdict_cut :
    (∃ reader i f fuel vm', TraceReader.ofFile ((traceFile [⟨1, 0x09, 7⟩]).take 16) = .ok reader ∧
      reader.frames = [⟨1, 0x09, 7⟩].take i ∧ [(⟨1, 0x09, 7⟩ : TraceFrame)][i]? = some f ∧
      cmdReplay (imageOf [encode 0x09 0 0 0, 0]) reader.frames fuel =
        some (.diverged ⟨f.cycle, f.opcode, 0, 0, i, true⟩ .traceEof vm' i)) ∧
    ∃ reader r fuel vm', TraceReader.ofFile
        (traceFile [⟨1, 0x09, 7⟩] ++ List.replicate 16 0) = .ok reader ∧
      cmdReplay (imageOf [encode 0x09 0 0 0, 0]) reader.frames fuel =
        some (.unread 1 r vm') := by
  let bytes := imageOf [encode 0x09 0 0 0, 0]
  have hframes : (cmdRecord bytes (fun _ => 7) (fun _ => 0) 2).bind RecordOutcome.frames =
      some [⟨1, 0x09, 7⟩] := by
    decide +kernel
  obtain ⟨r, vm, hrec⟩ := halted_of_frames hframes
  obtain ⟨hshorter, hlonger⟩ := resized_file_verdict bytes _ _ 2 r vm _ hrec
  obtain ⟨cut, hcut, -⟩ : ∃ reader, TraceReader.ofFile ((traceFile [⟨1, 0x09, 7⟩]).take 16) =
      .ok reader ∧ reader.frameCount = 0 :=
    ofFile_accepts_iff.mpr ⟨by decide, by decide, by decide⟩
  obtain ⟨long, hlong, -⟩ : ∃ reader, TraceReader.ofFile
      (traceFile [⟨1, 0x09, 7⟩] ++ List.replicate 16 0) = .ok reader ∧ reader.frameCount = 2 :=
    ofFile_accepts_iff.mpr ⟨by decide, by decide, by decide⟩
  constructor
  · obtain ⟨e, he⟩ | hmissed := hshorter 16 (by decide)
    · rw [hcut] at he
      cases he
    · exact hmissed
  · obtain ⟨e, he⟩ | ⟨reader, fuel, vm', hreader, -, hrun⟩ :=
      hlonger (List.replicate 16 0) (by decide)
    · rw [hlong] at he
      cases he
    · exact ⟨reader, r, fuel, vm', hreader, hrun⟩

end Files

end RetroVM

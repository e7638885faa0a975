import RetroVM.Trace.Drivers
import Mathlib.Order.Bounds.Basic

/-!
# What the replay verdict means (`main.cpp`, `cmd_replay`)

Let `E` be the (cycle, opcode) pairs of the `IN`s and `RAND`s a replay dispatches. While it runs,
the cursor counts them, `E` is the keys of the frames before the cursor and the values received are
theirs (`Matching`). It stops in one of three ways (`ReplayEnd`): the program halts there; the frame
under the cursor has another key than the one asked for; or there is no frame under the cursor. The
trace is arbitrary: it need not have been recorded from the program.

Results:
* `cycle_replay`: a turn keeps `Matching` or ends the run as `ReplayEnd` says.
* `exactVerdict_of_end`: the report of each way to stop.
* **`divergence_detection_exact`**: the report of `cmd_replay` against `E`.
-/

namespace RetroVM

/-- The (cycle, opcode) pairs of the queries dispatched. -/
def asked (cs : List Call) : List (UInt64 × UInt8) :=
  cs.filterMap fun
    | .dispatch cycle _ instr =>
      match decode instr with
      | some (.ask q _) => some (cycle, q.byte)
      | _ => none
    | _ => none

/-- The values received, as the observer saw them. -/
def received (cs : List Call) : List UInt32 :=
  cs.filterMap fun
    | .observe _ _ v => some v
    | _ => none

theorem asked_append (cs ds : List Call) : asked (cs ++ ds) = asked cs ++ asked ds :=
  List.filterMap_append

theorem received_append (cs ds : List Call) : received (cs ++ ds) = received cs ++ received ds :=
  List.filterMap_append

theorem asked_dispatch_ask {cycle : UInt64} {addr instr : UInt32} {q : Query} {dst : Fin 8}
    (h : decode instr = some (.ask q dst)) :
    asked [.dispatch cycle addr instr] = [(cycle, q.byte)] := by
  simp [asked, h]

theorem asked_dispatch_quiet {cycle : UInt64} {addr instr : UInt32}
    (h : ∀ q dst, decode instr ≠ some (.ask q dst)) :
    asked [.dispatch cycle addr instr] = [] := by
  unfold asked
  simp only [List.filterMap_cons, List.filterMap_nil]

/-! ## The cursor -/

/-- The cursor counts the queries dispatched, and each was answered by its frame. -/
structure Matching (reader : Trace) (m : Machine Nat) : Prop where
  inside   : m.env ≤ reader.length
  asked    : asked (calls m.history) = (reader.take m.env).map TraceFrame.key
  received : received (calls m.history) = (reader.take m.env).map (·.value)

/-- How a replay can end, with `E` what it dispatched. -/
inductive ReplayEnd (reader : Trace) (x : Exit Nat) : Prop
  /-- The program halted. -/
  | halted (r : HaltReason) (stop : x.stop = .returned r) (matching : Matching reader x.machine)
  /-- The frame under the cursor is not the one asked for. -/
  | mismatch (f : TraceFrame) (key : UInt64 × UInt8)
      (stop : x.stop = .threw ⟨key.1, key.2, f.cycle, f.opcode, x.machine.env, false⟩)
      (frame : reader[x.machine.env]? = some f) (other : f.key ≠ key)
      (asked : asked (calls x.machine.history) =
        (reader.take x.machine.env).map TraceFrame.key ++ [key])
      (received : received (calls x.machine.history) =
        (reader.take x.machine.env).map (·.value))
  /-- The trace is used up. -/
  | eof (key : UInt64 × UInt8)
      (stop : x.stop = .threw ⟨key.1, key.2, 0, 0, x.machine.env, true⟩)
      (used : x.machine.env = reader.length)
      (asked : asked (calls x.machine.history) = reader.map TraceFrame.key ++ [key])
      (received : received (calls x.machine.history) = reader.map (·.value))

section Turn

variable {reader : Trace} {m : Machine Nat}

/-- What a query does to the record of a run. -/
theorem asked_received_ask {q : Query} {dst : Fin 8} {instr : UInt32} (c : Consulted Nat)
    (hd : decode instr = some (.ask q dst)) (hc : asked c.calls = []) :
    asked (calls ((m.dispatched instr).received dst c).history) =
        asked (calls m.history) ++ [(m.state.cycleCount, q.byte)] ∧
      received (calls ((m.dispatched instr).received dst c).history) =
        received (calls m.history) ++ received c.calls := by
  rw [received_history]
  simp only [dispatched_history, calls_append, calls_call, calls_map_call, asked_append,
    received_append, asked_dispatch_ask hd, hc, List.append_nil]
  exact ⟨trivial, congrArg (· ++ _) (List.append_nil _)⟩

/-- A turn that is no query leaves the record alone. -/
theorem quiet_matching {instr : UInt32} (h : Matching reader m)
    (hq : ∀ q dst, decode instr ≠ some (.ask q dst)) :
    Matching reader (landed (m.retire (replayEnv reader) instr)) := by
  obtain ⟨henv, hcalls, -⟩ := retire_quiet (replayEnv reader) m hq
  have hasked : asked (calls (landed (m.retire (replayEnv reader) instr)).history) =
      asked (calls m.history) := by
    rcases hcalls with hc | hc
    · rw [hc]
    · rw [hc, asked_append, asked_dispatch_quiet hq, List.append_nil]
  have hreceived : received (calls (landed (m.retire (replayEnv reader) instr)).history) =
      received (calls m.history) := by
    rcases hcalls with hc | hc
    · rw [hc]
    · rw [hc, received_append]
      exact List.append_nil _
  refine ⟨henv ▸ h.inside, ?_, ?_⟩
  · rw [hasked, henv, h.asked]
  · rw [hreceived, henv, h.received]

/-- A query the trace does not answer has been asked, and nothing was received. -/
theorem refused_record (h : Matching reader m) {q : Query} {dst : Fin 8}
    (hd : decode m.fetched = some (.ask q dst)) (div : TraceMismatch) :
    let m' := (m.advance.dispatched m.fetched).received dst
      ⟨none, some div, m.env, [.hook q.byte (m.state.cycleCount + 1)]⟩
    asked (calls m'.history) =
        (reader.take m.env).map TraceFrame.key ++ [(m.state.cycleCount + 1, q.byte)] ∧
      received (calls m'.history) = (reader.take m.env).map (·.value) := by
  obtain ⟨ha, hv⟩ := asked_received_ask (m := m.advance)
    ⟨none, some div, m.env, [.hook q.byte (m.state.cycleCount + 1)]⟩ hd rfl
  constructor
  · rw [ha, advance_history, h.asked]
    rfl
  · rw [hv, advance_history, h.received]
    exact List.append_nil _

/-- A query its frame answers moves the cursor on. -/
theorem answered_matching (h : Matching reader m) {q : Query} {dst : Fin 8}
    (hd : decode m.fetched = some (.ask q dst)) {f : TraceFrame} (hf : reader[m.env]? = some f)
    (hkey : f.key = (m.state.cycleCount + 1, q.byte)) :
    Matching reader ((m.advance.dispatched m.fetched).received dst
      ⟨some f.value, none, m.env + 1, answeredCalls q (m.state.cycleCount + 1) f.value⟩) := by
  obtain ⟨hlt, hget⟩ := List.getElem?_eq_some_iff.mp hf
  have htake : reader.take (m.env + 1) = reader.take m.env ++ [f] := by
    rw [List.take_succ_eq_append_getElem hlt, hget]
  obtain ⟨ha, hv⟩ := asked_received_ask (m := m.advance)
    ⟨some f.value, none, m.env + 1, answeredCalls q (m.state.cycleCount + 1) f.value⟩ hd rfl
  refine ⟨hlt, ha.trans ?_, hv.trans ?_⟩
  · change _ = (reader.take (m.env + 1)).map TraceFrame.key
    rw [htake, List.map_append, advance_history, h.asked]
    exact congrArg (_ ++ [·]) hkey.symm
  · change _ = (reader.take (m.env + 1)).map (·.value)
    rw [htake, List.map_append, advance_history, h.received]
    rfl

/-- **One turn of a replay**: it keeps the cursor matching, or the run ends as it should. -/
theorem cycle_replay (h : Matching reader m) (hi : m.state.snapInterval = 0) :
    (∀ m', m.cycle (replayEnv reader) = .ok m' → Matching reader m') ∧
      ∀ x, m.cycle (replayEnv reader) = .error x → ReplayEnd reader x := by
  rw [cycle_off _ hi]
  by_cases hask : ∃ q dst, decode m.fetched = some (.ask q dst)
  · obtain ⟨q, dst, hd⟩ := hask
    have hcount : m.advance.state.cycleCount = m.state.cycleCount + 1 := rfl
    rw [retire_ask hd, hcount]
    change (∀ m', Machine.receive _ dst (consult (replayHooks reader) q _ m.env) = .ok m' → _) ∧
      ∀ x, Machine.receive _ dst (consult (replayHooks reader) q _ m.env) = .error x → _
    cases hf : reader[m.env]? with
    | none =>
      have hused : m.env = reader.length :=
        Nat.le_antisymm h.inside (List.getElem?_eq_none_iff.mp hf)
      rw [consult_replay_end hf]
      refine ⟨fun m' hm' => (by cases hm'), fun x hx => ?_⟩
      cases hx
      obtain ⟨ha, hv⟩ := refused_record h hd ⟨m.state.cycleCount + 1, q.byte, 0, 0, m.env, true⟩
      rw [hused, List.take_length] at ha hv
      exact .eof (m.state.cycleCount + 1, q.byte) rfl hused ha hv
    | some f =>
      by_cases hkey : f.key = (m.state.cycleCount + 1, q.byte)
      · rw [consult_replay_hit hf hkey]
        refine ⟨fun m' hm' => ?_, fun x hx => by cases hx⟩
        cases hm'
        exact answered_matching h hd hf hkey
      · rw [consult_replay_miss hf hkey]
        refine ⟨fun m' hm' => (by cases hm'), fun x hx => ?_⟩
        cases hx
        obtain ⟨ha, hv⟩ := refused_record h hd
          ⟨m.state.cycleCount + 1, q.byte, f.cycle, f.opcode, m.env, false⟩
        exact .mismatch f (m.state.cycleCount + 1, q.byte) rfl hf hkey ha hv
  · have hquiet : ∀ q dst, decode m.fetched ≠ some (.ask q dst) := fun q dst hd => hask ⟨q, dst, hd⟩
    have hm := quiet_matching (m := m.advance) ⟨h.inside, h.asked, h.received⟩ hquiet
    constructor
    · intro m' hm'
      rwa [hm'] at hm
    · intro x hx
      obtain ⟨r, hr⟩ := (retire_quiet (replayEnv reader) m.advance hquiet).2.2 x hx
      rw [hx] at hm
      exact .halted r hr hm

end Turn

/-! ## The verdict -/

/-- What the report of `cmd_replay` says of a run that dispatched the queries `E`, received
`got`, left the cursor at `cursor` and ended with `stop`. -/
structure ExactVerdict (reader : Trace) (E : List (UInt64 × UInt8)) (got : List UInt32)
    (cursor : Nat) (stop : Stop) (out : ReplayOutcome) : Prop where
  /-- `replay VERIFIED`: the run halted, having asked for exactly the frames. -/
  verified : (∃ r vm, out = .verified r vm) ↔
    (∃ r, stop = .returned r) ∧ E = reader.map TraceFrame.key
  /-- Then the `i`-th query received the `i`-th value. -/
  values : (∃ r vm, out = .verified r vm) → got = reader.map (·.value)
  /-- A mismatch is reported at the first frame whose key is not the one asked for. -/
  mismatch : ∀ i, (∃ div vm n, out = .diverged div .diverged vm n ∧ div.frameIdx = i) ↔
    IsLeast {i | i < reader.length ∧ i < E.length ∧ E[i]? ≠ reader[i]?.map TraceFrame.key} i
  /-- The end of the trace is reported when all of it matched and one more query came. -/
  eof : ∀ i, (∃ div vm n, out = .diverged div .traceEof vm n ∧ div.frameIdx = i) ↔
    i = reader.length ∧ ∃ key, E = reader.map TraceFrame.key ++ [key]
  /-- Frames are reported unread when the run halted on a proper prefix of them. -/
  unread : ∀ c, (∃ r vm, out = .unread c r vm) ↔
    (∃ r, stop = .returned r) ∧ E <+: reader.map TraceFrame.key ∧ E.length < reader.length ∧
      c = reader.length - cursor
  /-- Neither the reported frame nor any after it is consumed. -/
  consumed : ∀ div r vm n, out = .diverged div r vm n → n = div.frameIdx ∧ n = cursor
  /-- The frames consumed are those whose values were received. -/
  received : got = (reader.take cursor).map (·.value)

/-- Where `E` starts with the keys of a prefix of the frames, it agrees with them there. -/
theorem getElem?_of_matched {reader : Trace} {E tail : List (UInt64 × UInt8)} {c i : Nat}
    (hE : E = (reader.take c).map TraceFrame.key ++ tail) (hi : i < c) (hir : i < reader.length) :
    E[i]? = reader[i]?.map TraceFrame.key := by
  have hlen : i < ((reader.take c).map TraceFrame.key).length := by
    rw [List.length_map, List.length_take]
    omega
  rw [hE, List.getElem?_append_left hlen, List.getElem?_map, List.getElem?_take_of_lt hi]

section Verdict

variable {reader : Trace} {x : Exit Nat}

theorem exactVerdict_of_halted {r : HaltReason} (stop : x.stop = .returned r)
    (h : Matching reader x.machine) :
    ExactVerdict reader (asked (calls x.machine.history)) (received (calls x.machine.history))
      x.machine.env x.stop (replayVerdict reader x) := by
  obtain ⟨inside, hasked, hreceived⟩ := h
  have hlen : (asked (calls x.machine.history)).length = x.machine.env := by
    rw [hasked, List.length_map, List.length_take]
    omega
  have hprefix : asked (calls x.machine.history) <+: reader.map TraceFrame.key := by
    rw [hasked]
    exact (List.take_prefix _ _).map _
  have hverified : (∃ r vm, replayVerdict reader x = .verified r vm) ↔
      reader.length ≤ x.machine.env := by
    simp only [replayVerdict_eq_verified, stop]
    exact ⟨fun ⟨_, _, _, h, _⟩ => h, fun h => ⟨r, _, rfl, h, rfl⟩⟩
  have hfull : asked (calls x.machine.history) = reader.map TraceFrame.key ↔
      reader.length ≤ x.machine.env := by
    constructor
    · intro h
      rw [← hlen, h, List.length_map]
    · intro h
      rw [hasked, List.take_of_length_le h]
  have hthrew : ∀ div r vm n, replayVerdict reader x ≠ .diverged div r vm n := by
    intro div r vm n
    unfold replayVerdict
    rw [stop]
    simp only
    split <;> simp
  refine ⟨?_, ?_, ?_, ?_, ?_, ?_, hreceived⟩
  · rw [hverified, hfull, stop]
    exact ⟨fun h => ⟨⟨r, rfl⟩, h⟩, fun h => h.2⟩
  · rw [hverified]
    intro h
    rw [hreceived, List.take_of_length_le h]
  · intro i
    refine ⟨fun ⟨_, _, _, h, _⟩ => absurd h (hthrew _ _ _ _), fun ⟨⟨hi, hiE, hne⟩, _⟩ => ?_⟩
    rw [hlen] at hiE
    exact absurd (getElem?_of_matched (by rw [hasked, List.append_nil]) hiE hi) hne
  · intro i
    refine ⟨fun ⟨_, _, _, h, _⟩ => absurd h (hthrew _ _ _ _), fun ⟨_, key, hE⟩ => ?_⟩
    have hlong := congrArg List.length hE
    rw [hlen, List.length_append, List.length_map, List.length_singleton] at hlong
    omega
  · intro c
    unfold replayVerdict
    rw [stop, hlen]
    by_cases hc : x.machine.env < reader.length
    · simp only [hc, if_true, ReplayOutcome.unread.injEq]
      exact ⟨fun ⟨_, _, h, _⟩ => ⟨⟨r, rfl⟩, hprefix, trivial, h.symm⟩,
        fun ⟨_, _, _, h⟩ => ⟨r, _, h.symm, rfl, rfl⟩⟩
    · simp only [hc, if_false, reduceCtorEq, exists_false, false_and, and_false]
  · exact fun div r vm n h => absurd h (hthrew _ _ _ _)

/-- A run that threw is reported as diverged, at the frame the exception names. -/
theorem exactVerdict_of_threw {div : TraceMismatch} (stop : x.stop = .threw div)
    (hframe : div.frameIdx = x.machine.env) {E : List (UInt64 × UInt8)} {got : List UInt32}
    (hreceived : got = (reader.take x.machine.env).map (·.value))
    (hmismatch : ∀ i, div.prematureEof = false ∧ x.machine.env = i ↔
      IsLeast {i | i < reader.length ∧ i < E.length ∧ E[i]? ≠ reader[i]?.map TraceFrame.key} i)
    (heof : ∀ i, div.prematureEof = true ∧ x.machine.env = i ↔
      i = reader.length ∧ ∃ key, E = reader.map TraceFrame.key ++ [key]) :
    ExactVerdict reader E got x.machine.env x.stop (replayVerdict reader x) := by
  have hout : replayVerdict reader x = .diverged div
      (if div.prematureEof then .traceEof else .diverged) x.machine.vm x.machine.env := by
    unfold replayVerdict
    rw [stop]
  rw [hout, stop]
  refine ⟨?_, ?_, fun i => ?_, fun i => ?_, fun c => ?_, ?_, hreceived⟩
  · simp
  · simp
  · rw [← hmismatch, ← hframe]
    cases div.prematureEof <;> simp
  · rw [← heof, ← hframe]
    cases div.prematureEof <;> simp
  · simp
  · intro div' r vm n h
    cases h
    exact ⟨hframe.symm, rfl⟩

theorem exactVerdict_of_mismatch {f : TraceFrame} {key : UInt64 × UInt8}
    (stop : x.stop = .threw ⟨key.1, key.2, f.cycle, f.opcode, x.machine.env, false⟩)
    (frame : reader[x.machine.env]? = some f) (other : f.key ≠ key)
    (hasked : asked (calls x.machine.history) =
      (reader.take x.machine.env).map TraceFrame.key ++ [key])
    (hreceived : received (calls x.machine.history) =
      (reader.take x.machine.env).map (·.value)) :
    ExactVerdict reader (asked (calls x.machine.history)) (received (calls x.machine.history))
      x.machine.env x.stop (replayVerdict reader x) := by
  obtain ⟨hlt, -⟩ := List.getElem?_eq_some_iff.mp frame
  have hlen : (asked (calls x.machine.history)).length = x.machine.env + 1 := by
    rw [hasked, List.length_append, List.length_map, List.length_take, List.length_singleton]
    omega
  have hdiffers : (asked (calls x.machine.history))[x.machine.env]? ≠
      reader[x.machine.env]?.map TraceFrame.key := by
    have hat : ((reader.take x.machine.env).map TraceFrame.key).length = x.machine.env := by
      rw [List.length_map, List.length_take]
      omega
    rw [hasked, List.getElem?_append_right (Nat.le_of_eq hat), hat, Nat.sub_self, frame]
    exact fun e => other (Option.some.inj e).symm
  have hleast : IsLeast {i | i < reader.length ∧ i < (asked (calls x.machine.history)).length ∧
      (asked (calls x.machine.history))[i]? ≠ reader[i]?.map TraceFrame.key} x.machine.env := by
    refine ⟨⟨hlt, by omega, hdiffers⟩, fun i ⟨hi, _, hne⟩ => ?_⟩
    by_contra hbefore
    exact hne (getElem?_of_matched hasked (Nat.lt_of_not_le hbefore) hi)
  refine exactVerdict_of_threw stop rfl hreceived (fun i => ?_) (fun i => ?_)
  · exact ⟨fun ⟨_, h⟩ => h ▸ hleast, fun h => ⟨rfl, hleast.unique h⟩⟩
  · refine ⟨fun ⟨h, _⟩ => (by cases h), fun ⟨_, key', hE⟩ => ?_⟩
    have hlong := congrArg List.length hE
    rw [hlen, List.length_append, List.length_map, List.length_singleton] at hlong
    omega

theorem exactVerdict_of_eof {key : UInt64 × UInt8}
    (stop : x.stop = .threw ⟨key.1, key.2, 0, 0, x.machine.env, true⟩)
    (used : x.machine.env = reader.length)
    (hasked : asked (calls x.machine.history) = reader.map TraceFrame.key ++ [key])
    (hreceived : received (calls x.machine.history) = reader.map (·.value)) :
    ExactVerdict reader (asked (calls x.machine.history)) (received (calls x.machine.history))
      x.machine.env x.stop (replayVerdict reader x) := by
  refine exactVerdict_of_threw stop rfl ?_ (fun i => ?_) (fun i => ?_)
  · rw [hreceived, used, List.take_length]
  · refine ⟨fun ⟨h, _⟩ => (by cases h), fun ⟨⟨hi, _, hne⟩, _⟩ => ?_⟩
    have hall : asked (calls x.machine.history) =
        (reader.take reader.length).map TraceFrame.key ++ [key] := by
      rw [List.take_length, hasked]
    exact absurd (getElem?_of_matched hall hi hi) hne
  · exact ⟨fun ⟨_, h⟩ => ⟨h ▸ used, key, hasked⟩, fun ⟨h, _⟩ => ⟨rfl, used.trans h.symm⟩⟩

/-- **Every end of a replay is reported as what it is.** -/
theorem exactVerdict_of_end (h : ReplayEnd reader x) :
    ExactVerdict reader (asked (calls x.machine.history)) (received (calls x.machine.history))
      x.machine.env x.stop (replayVerdict reader x) := by
  cases h with
  | halted r stop matching => exact exactVerdict_of_halted stop matching
  | mismatch f key stop frame other asked received =>
    exact exactVerdict_of_mismatch stop frame other asked received
  | eof key stop used asked received => exact exactVerdict_of_eof stop used asked received

end Verdict

/-- A replay that stops, stops in one of the three ways. -/
theorem leaves_replayEnd {reader : Trace} {vm : VM} (hi : vm.state.snapInterval = 0) {x : Exit Nat}
    (h : StepLoop.Leaves (Machine.cycle (replayEnv reader)) (.start vm 0) x) :
    ReplayEnd reader x := by
  refine StepLoop.leaves_invariant
    (I := fun m => Matching reader m ∧ m.state.snapInterval = 0) (Q := ReplayEnd reader)
    (fun m m' hm hc => ?_) (fun m x hm hc => (cycle_replay hm.1 hm.2).2 x hc)
    ⟨⟨Nat.zero_le _, rfl, rfl⟩, hi⟩ h
  have hint := (cycle_frame (replayEnv reader) m).2.2
  rw [hc] at hint
  exact ⟨(cycle_replay hm.1 hm.2).1 m' hc, hint.trans hm.2⟩

/-- **Divergence detection is exact.** Let `E` be the (cycle, opcode) pairs of the queries a replay
of any image against any trace dispatches. Its report is `VERIFIED` iff the run halted and `E` is
the keys of the frames; a mismatch at `i` iff `i` is the first frame `E` differs from; the end of
the trace iff all of it matched and one more query came; unread frames iff the program halted
before. -/
theorem divergence_detection_exact (bytes : List UInt8) (reader : Trace) (fuel : Nat) (vm0 : VM)
    (hb : VM.boot bytes = some vm0) (out : ReplayOutcome)
    (h : cmdReplay bytes reader fuel = some out) :
    ∃ x, StepLoop.Leaves (turn (replayEnv reader)) (.start vm0 0) x ∧
      ExactVerdict reader (asked (calls x.machine.history)) (received (calls x.machine.history))
        x.machine.env x.stop out := by
  obtain ⟨hrun, hint⟩ := boot_running hb
  obtain ⟨x, hx, rfl⟩ := (cmdReplay_eq_some_iff hb).mp h
  have hleaves : StepLoop.Leaves (Machine.cycle (replayEnv reader)) (.start vm0 0) x := ⟨fuel, hx⟩
  have hstart : (Machine.start vm0 0).state.halted = .running := hrun
  exact ⟨x, (leaves_turn_iff hstart).mpr hleaves,
    exactVerdict_of_end (leaves_replayEnd hint hleaves)⟩

/-- `IN R0; HALT` against two frames, the second of them never asked for: one frame is reported
unread, one query was dispatched, and it received 5. -/
theorem divergence_detection_exact_unread :
    ∃ (vm0 vm : VM) (r : HaltReason) (x : Exit Nat),
      VM.boot (imageOf [encode 0x09 0 0 0, 0]) = some vm0 ∧
      StepLoop.Leaves (turn (replayEnv [⟨1, 9, 5⟩, ⟨2, 9, 6⟩])) (.start vm0 0) x ∧
      cmdReplay (imageOf [encode 0x09 0 0 0, 0]) [⟨1, 9, 5⟩, ⟨2, 9, 6⟩] 2 =
        some (.unread 1 r vm) ∧
      x.machine.env = 1 ∧ received (calls x.machine.history) = [5] ∧
      ExactVerdict [⟨1, 9, 5⟩, ⟨2, 9, 6⟩] (asked (calls x.machine.history))
        (received (calls x.machine.history)) x.machine.env x.stop (.unread 1 r vm) := by
  let bytes := imageOf [encode 0x09 0 0 0, 0]
  let unread : ReplayOutcome → Option (Nat × HaltReason)
    | .unread count r _ => some (count, r)
    | _ => none
  have hunread : (cmdReplay bytes [⟨1, 9, 5⟩, ⟨2, 9, 6⟩] 2).bind unread = some (1, .normal) := by
    decide +kernel
  obtain ⟨out, hout, hcount⟩ := Option.bind_eq_some_iff.mp hunread
  obtain ⟨vm, rfl⟩ : ∃ vm, out = .unread 1 .normal vm := by
    cases out with
    | unread count r vm =>
      obtain ⟨rfl, rfl⟩ := Prod.mk.inj (Option.some.inj hcount)
      exact ⟨vm, rfl⟩
    | _ => cases hcount
  obtain ⟨x, hx, hexact⟩ := divergence_detection_exact bytes _ 2 _ (boot_of_le (by decide)) _ hout
  obtain ⟨-, -, hless, hcursor⟩ := (hexact.unread 1).mp ⟨_, _, rfl⟩
  have hone : x.machine.env = 1 := by
    change 1 = 2 - x.machine.env at hcursor
    omega
  refine ⟨_, vm, .normal, x, boot_of_le (by decide), hx, hout, hone, ?_, hexact⟩
  rw [hexact.received, hone]
  rfl

end RetroVM

import RetroVM.Checkpoint.SplitRun

/-!
# The instant `cmd_save` captures (`main.cpp`, `cmd_save`; `README.md`, "`--at-frame=N` semantics")

The sink of `cmd_save` saves on the first fetch at which the cursor is on frame `N` and the cycle
count is that frame's. The instruction that takes frame `N` is fetched at such a moment. It is the
first one unless the program has been at the cursor for more than `2 ^ 64` fetches by then, so that
the cycle count has been that of the frame once before.

Results:
* `entersSave_iff`: when the sink enters the save branch.
* `lingers_of_cycle_eq`: two fetches of one cycle count at one cursor are `2 ^ 64` apart.
* **`save_captures_instant_iff`**; `save_misses_instant`: two nested loops of `2 ^ 32` rounds.
-/

namespace RetroVM

variable {bytes : List UInt8} {reader : Trace} {atFrame : Nat}

/-- The sink, called for `g`, gets past its three tests. -/
def EntersSave (atFrame : Nat) (targetCycle : UInt64) (g : Firing (Nat × SaveState)) : Prop :=
  g.env.2.saved = false ∧ g.env.1 = atFrame ∧ g.vm.state.cycleCount = targetCycle

/-- `cmd_save` captures `k`: its run fetches as often as the replay does up to and with the turn
from `k`, enters the save branch on that last fetch and no other, and returns `HALT_CHECKPOINT`
with the cursor still on the frame and what `k` holds in the file. -/
structure Captures (reader : Trace) (atFrame : Nat) (f : TraceFrame) (n : Nat) (k : Machine Nat)
    (x : Exit (Nat × SaveState)) : Prop where
  stop   : x.stop = .returned .checkpoint
  cursor : x.machine.env.1 = atFrame
  file   : x.machine.env.2.file = some (checkpointSave (checkpointOf .checkpoint atFrame k))
  index  : (checkpointOf .checkpoint atFrame k).frameIndex.toNat = atFrame
  opcode : ∃ q dst, decode k.fetched = some (.ask q dst) ∧ q.byte = f.opcode
  once   : ∃ before last, firings x.machine.history = before ++ [last] ∧ before.length = n ∧
    EntersSave atFrame f.cycle last ∧ ∀ g ∈ before, ¬ EntersSave atFrame f.cycle g

/-- `cmd_save` captures the fetch of the instruction that takes frame `atFrame`. -/
def CapturesInstant (bytes : List UInt8) (reader : Trace) (atFrame : Nat) : Prop :=
  ∃ vm0 f n k x, VM.boot bytes = some vm0 ∧ reader[atFrame]? = some f ∧
    StepLoop.after (turn (replayEnv reader)) n (.start vm0 0) = .ok k ∧
    TakesFrame reader atFrame k ∧
    StepLoop.after (turn (saveEnv reader atFrame f.cycle true)) (n + 1)
      (.start (vm0.setSnapshotInterval 1) (0, ⟨false, none⟩)) = .error x ∧
    Captures reader atFrame f n k x

/-- The replay fetches more than `2 ^ 64` times with the cursor on frame `atFrame`. -/
def Lingers (bytes : List UInt8) (reader : Trace) (atFrame : Nat) : Prop :=
  ∃ vm0 n u v, VM.boot bytes = some vm0 ∧
    StepLoop.after (turn (replayEnv reader)) n (.start vm0 0) = .ok u ∧
    StepLoop.after (turn (replayEnv reader)) (n + 2 ^ 64) (.start vm0 0) = .ok v ∧
    u.env = atFrame ∧ v.env = atFrame

/-! ## The save branch -/

/-- `cmd_save` follows the replay, and has not entered the branch. -/
def Waiting (atFrame : Nat) (f : TraceFrame) (m : Machine (Nat × SaveState)) (k : Machine Nat) :
    Prop :=
  Saving m k ∧ ∀ g ∈ firings m.history, ¬ EntersSave atFrame f.cycle g

section WaitingTurn

variable {f : TraceFrame} {m : Machine (Nat × SaveState)} {k : Machine Nat}

/-- What the sink of `cmd_save` finds on the next fetch. -/
theorem entersSave_iff (h : Saving m k) :
    EntersSave atFrame f.cycle ⟨m.advance.vm.snapshot, m.advance.vm.drained, m.env⟩ ↔
      AtFrame f atFrame k := by
  have hcycle : m.advance.vm.drained.state.cycleCount = k.state.cycleCount + 1 :=
    congrArg (· + 1) h.alike.cycleCount
  unfold EntersSave AtFrame
  simp only [hcycle]
  rw [show m.env = (k.env, ⟨false, none⟩) from h.alike.env]
  simp

/-- **One turn before the instant** keeps the branch unentered. -/
theorem waiting_turn (h : Waiting atFrame f m k) (hmiss : ¬ AtFrame f atFrame k) :
    StepLoop.Matched (Waiting atFrame f) (fun _ _ => True)
      (m.cycle (saveEnv reader atFrame f.cycle true)) (k.cycle (replayEnv reader)) := by
  obtain ⟨hs, hnone⟩ := h
  have hfire := cycle_firings (E := saveEnv reader atFrame f.cycle true) rfl hs.interval hs.timer
  refine (saving_turn true hs hmiss).imp (fun u v hu _ huv => ⟨huv, fun g hg => ?_⟩)
    fun _ _ _ _ _ => trivial
  rw [hu, landed_ok] at hfire
  rw [hfire] at hg
  rcases List.mem_append.mp hg with hg | hg
  · exact hnone g hg
  · rw [List.mem_singleton.mp hg, entersSave_iff hs]
    exact hmiss

end WaitingTurn

/-! ## How often the cycle count is that of the frame -/

section Replay

variable {m m' : Machine Nat}

/-- The cursor never goes back. -/
theorem after_cursor_le (hoff : m.state.snapInterval = 0) {n : Nat}
    (hn : StepLoop.after (Machine.cycle (replayEnv reader)) n m = .ok m') : m.env ≤ m'.env := by
  induction n generalizing m' with
  | zero =>
    obtain rfl : m = m' := by simpa using hn
    exact Nat.le_refl _
  | succ n ih =>
    obtain ⟨u, hu, hc⟩ := StepLoop.after_ok_pred hn
    refine (ih hu).trans ?_
    rcases cycle_replay_cursor reader (after_off hoff hu) with hsame | ⟨f, u', -, -, hu', hnext⟩
    · rw [hc, landed_ok] at hsame
      exact Nat.le_of_eq hsame.symm
    · obtain rfl : u' = m' := Except.ok.inj (hu'.symm.trans hc)
      omega

/-- Between two turns on one frame the cursor stays there. -/
theorem cursor_between (hoff : m.state.snapInterval = 0) {i j k : Nat} {u v : Machine Nat}
    (hi : StepLoop.after (Machine.cycle (replayEnv reader)) i m = .ok u)
    (hk : StepLoop.after (Machine.cycle (replayEnv reader)) k m = .ok v) (hij : i ≤ j)
    (hjk : j ≤ k) (huv : v.env ≤ u.env) :
    ∃ w, StepLoop.after (Machine.cycle (replayEnv reader)) j m = .ok w ∧ w.env = u.env := by
  obtain ⟨w, hw, hrest⟩ := StepLoop.after_ok_of_le hk hjk
  obtain ⟨u', hu', hmid⟩ := StepLoop.after_ok_of_le hw hij
  obtain rfl : u = u' := Except.ok.inj (hi.symm.trans hu')
  have hle := after_cursor_le (after_off hoff hi) hmid
  have hge := after_cursor_le (after_off hoff hw) hrest
  exact ⟨w, hw, by omega⟩

/-- The turn that takes a frame is the last with the cursor on it. -/
theorem TakesFrame.last {k v : Machine Nat} (h : TakesFrame reader atFrame k)
    (hoff : m.state.snapInterval = 0) {n j : Nat}
    (hn : StepLoop.after (Machine.cycle (replayEnv reader)) n m = .ok k)
    (hj : StepLoop.after (Machine.cycle (replayEnv reader)) j m = .ok v)
    (hv : v.env = atFrame) : j ≤ n := by
  obtain ⟨-, k', hk', hnext⟩ := h
  rw [show turn (replayEnv reader) k = k.cycle (replayEnv reader) from goto_turn_eq_cycle _ k]
    at hk'
  by_contra hgt
  obtain ⟨w, hw, hrest⟩ := StepLoop.after_ok_of_le hj (Nat.succ_le_of_lt (Nat.lt_of_not_le hgt))
  obtain rfl : k' = w :=
    Except.ok.inj (hk'.symm.trans ((StepLoop.after_succ_right hn).symm.trans hw))
  have hmono := after_cursor_le (after_off hoff hw) hrest
  omega

theorem ofNat_eq_of_lt {i j : Nat} (h : UInt64.ofNat i = UInt64.ofNat j) (hlt : i < j) :
    i + 2 ^ 64 ≤ j := by
  have e := congrArg UInt64.toNat h
  rw [UInt64.toNat_ofNat', UInt64.toNat_ofNat'] at e
  omega

end Replay

/-- **Two fetches of one cycle count at one cursor** are `2 ^ 64` fetches apart. -/
theorem lingers_of_cycle_eq {vm0 : VM} (hb : VM.boot bytes = some vm0) {i j : Nat}
    {u v : Machine Nat}
    (hi : StepLoop.after (turn (replayEnv reader)) i (.start vm0 0) = .ok u)
    (hj : StepLoop.after (turn (replayEnv reader)) j (.start vm0 0) = .ok v) (hlt : i < j)
    (hu : u.env = atFrame) (hv : v.env = atFrame)
    (hc : u.state.cycleCount = v.state.cycleCount) : Lingers bytes reader atFrame := by
  obtain ⟨hrun, hint⟩ := boot_running hb
  have hturn := after_turn_eq (m := .start vm0 0) (replayEnv reader) hrun
  rw [hturn] at hi hj
  rw [after_cycleCount hi, after_cycleCount hj] at hc
  have hfar := ofNat_eq_of_lt ((UInt64.add_right_inj _).mp hc) hlt
  obtain ⟨w, hw, hcursor⟩ := cursor_between hint hi hj (Nat.le_add_right i (2 ^ 64)) hfar
    (by rw [hu, hv])
  refine ⟨vm0, i, u, w, hb, ?_, ?_, hu, hcursor.trans hu⟩
  · rw [hturn, hi]
  · rw [hturn, hw]

/-! ## Capturing -/

/-- The first turn with the cursor on a frame, in that frame's cycle. -/
theorem exists_first {m k : Machine Nat} {f : TraceFrame} {n : Nat}
    (hn : StepLoop.after (Machine.cycle (replayEnv reader)) n m = .ok k)
    (hat : AtFrame f atFrame k) :
    ∃ i u, i ≤ n ∧ StepLoop.after (Machine.cycle (replayEnv reader)) i m = .ok u ∧
      AtFrame f atFrame u ∧
      StepLoop.Before (AtFrame f atFrame) (Machine.cycle (replayEnv reader)) m i := by
  classical
  have hex : ∃ i u, StepLoop.after (Machine.cycle (replayEnv reader)) i m = .ok u ∧
      AtFrame f atFrame u := ⟨n, k, hn, hat⟩
  obtain ⟨u, hu, huat⟩ := Nat.find_spec hex
  exact ⟨Nat.find hex, u, Nat.find_min' hex ⟨k, hn, hat⟩, hu, huat,
    fun j v hj hv hvat => Nat.find_min hex hj ⟨v, hv, hvat⟩⟩

/-- **`cmd_save` stops on that turn**, whichever it is. -/
theorem save_stops_first {vm0 : VM} (hb : VM.boot bytes = some vm0) {f : TraceFrame}
    {k : Machine Nat} {n : Nat}
    (hn : StepLoop.after (Machine.cycle (replayEnv reader)) n (.start vm0 0) = .ok k)
    (hat : AtFrame f atFrame k)
    (hfirst : StepLoop.Before (AtFrame f atFrame) (Machine.cycle (replayEnv reader))
      (.start vm0 0) n) :
    ∃ x, StepLoop.after (Machine.cycle (saveEnv reader atFrame f.cycle true)) (n + 1)
        (.start (vm0.setSnapshotInterval 1) (0, ⟨false, none⟩)) = .error x ∧
      x.stop = .returned .checkpoint ∧
      x.machine.env =
        (atFrame, ⟨true, some (checkpointSave (checkpointOf .checkpoint atFrame k))⟩) ∧
      ∃ before last, firings x.machine.history = before ++ [last] ∧ before.length = n ∧
        EntersSave atFrame f.cycle last ∧ ∀ g ∈ before, ¬ EntersSave atFrame f.cycle g := by
  obtain ⟨hrun, hint⟩ := boot_running hb
  have h0 : Waiting atFrame f (.start (vm0.setSnapshotInterval 1) (0, ⟨false, none⟩))
      (.start vm0 0) :=
    ⟨⟨⟨rfl, rfl, rfl, rfl, fun _ _ => rfl, rfl, rfl⟩, hrun, rfl, rfl, hint⟩,
      fun g hg => absurd hg List.not_mem_nil⟩
  obtain ⟨m, hm, hs, hnone⟩ := StepLoop.after_before
    (fun m k hw hmiss => waiting_turn hw hmiss) h0 hn hfirst
  obtain ⟨x, hx, hstop, henv⟩ := saving_stops hs hat
  have hlen := after_firings_length (E := saveEnv reader atFrame f.cycle true) rfl rfl rfl hm
  have hfire := cycle_firings (E := saveEnv reader atFrame f.cycle true) rfl hs.interval hs.timer
  rw [hx, landed_error] at hfire
  refine ⟨x, ?_, hstop, henv, firings m.history, _, hfire, ?_, (entersSave_iff hs).mpr hat,
    hnone⟩
  · rw [StepLoop.after_succ_right hm, hx]
  · rw [hlen]
    exact Nat.zero_add n

/-- **Where the replay lingers on a frame, `cmd_save` stops too early.** -/
theorem CapturesInstant.not_lingers (h : CapturesInstant bytes reader atFrame) :
    ¬ Lingers bytes reader atFrame := by
  rintro ⟨vm0, a, u, v, hb, hu, hv, hua, hva⟩
  obtain ⟨vm0', f, n, k, x, hb', hf, hk, htakes, hx, hcap⟩ := h
  obtain rfl : vm0 = vm0' := Option.some.inj (hb.symm.trans hb')
  obtain ⟨hrun, hint⟩ := boot_running hb
  have hreplay := after_turn_eq (m := .start vm0 0) (replayEnv reader) hrun
  rw [hreplay] at hu hv hk
  rw [show turn (saveEnv reader atFrame f.cycle true) =
    Machine.cycle (saveEnv reader atFrame f.cycle true) from funext (goto_turn_eq_cycle _)] at hx
  obtain ⟨f', -, -, hf', hat, -⟩ := htakes.asks (after_off hint hk)
  obtain rfl : f = f' := Option.some.inj (hf.symm.trans hf')
  -- the fetch `2 ^ 64` turns before the one that takes the frame has its cycle count too
  obtain ⟨d, rfl⟩ := Nat.exists_eq_add_of_le (htakes.last hint hk hv hva)
  obtain ⟨w, hw, hcursor⟩ := cursor_between hint hu hk (Nat.le_add_right a d) (by omega)
    (by rw [hua, htakes.1])
  have hsame : w.state.cycleCount = k.state.cycleCount := by
    have hwrap : UInt64.ofNat (a + 2 ^ 64 + d) = UInt64.ofNat (a + d) := by
      apply UInt64.toNat.inj
      rw [UInt64.toNat_ofNat', UInt64.toNat_ofNat']
      omega
    rw [after_cycleCount hw, after_cycleCount hk, hwrap]
  -- so the sink stops there at the latest
  obtain ⟨i, u', hi, hu', hat', hfirst⟩ := exists_first hw
    (show AtFrame f atFrame w from ⟨hcursor.trans hua, by rw [hsame, hat.2]⟩)
  obtain ⟨x', hx', -, -, before, last, hfirings, hlen, -⟩ := save_stops_first hb hu' hat' hfirst
  obtain rfl : x = x' := StepLoop.Leaves.unique ⟨_, hx⟩ ⟨_, hx'⟩
  obtain ⟨before', last', hfirings', hlen', -⟩ := hcap.once
  have hcount := congrArg List.length (hfirings.symm.trans hfirings')
  simp only [List.length_append, List.length_singleton] at hcount
  omega

/-- **When `cmd_save` captures the right instant.** Take any recorded trace and any frame of it
whose number fits the file: `cmd_save` captures the fetch of the instruction that takes the frame,
and enters its save branch on that fetch only, iff the replay does not fetch more than `2 ^ 64`
times with the cursor on the frame. -/
theorem save_captures_instant_iff (bytes : List UInt8) (stdin rng : Nat → UInt32) (fuel : Nat)
    (r : HaltReason) (vm : VM) (frames : Trace)
    (hrec : cmdRecord bytes stdin rng fuel = some (.halted r vm frames)) (atFrame : Nat)
    (hN : atFrame < frames.length) (h32 : atFrame < 2 ^ 32) :
    CapturesInstant bytes frames atFrame ↔ ¬ Lingers bytes frames atFrame := by
  refine ⟨CapturesInstant.not_lingers, fun hstays => ?_⟩
  obtain ⟨vm0, y, hb, hy, -, hread, -⟩ := replay_follows_record hrec
  obtain ⟨hrun, hint⟩ := boot_running hb
  have hreplay := after_turn_eq (m := .start vm0 0) (replayEnv frames) hrun
  obtain ⟨n, k, hk, htakes⟩ := exists_takesFrame hint ⟨fuel, hy⟩ hread hN
  obtain ⟨f, q, dst, hf, hat, hd, hop⟩ := htakes.asks (after_off hint hk)
  obtain ⟨i, u, hi, hu, huat, hfirst⟩ := exists_first hk hat
  -- the turn the sink stops on is the one that takes the frame
  obtain rfl : i = n := by
    by_contra hne
    refine hstays (lingers_of_cycle_eq hb ((hreplay i).trans hu) ((hreplay n).trans hk)
      (by omega) huat.1 hat.1 ?_)
    exact (UInt64.add_left_inj 1).mp (huat.2.trans hat.2.symm)
  obtain rfl : u = k := Except.ok.inj (hu.symm.trans hk)
  obtain ⟨x, hx, hstop, henv, honce⟩ := save_stops_first hb hk hat hfirst
  refine ⟨vm0, f, i, u, x, hb, hf, (hreplay i).trans hk, htakes, ?_, ?_⟩
  · rw [show turn (saveEnv frames atFrame f.cycle true) =
      Machine.cycle (saveEnv frames atFrame f.cycle true) from funext (goto_turn_eq_cycle _), hx]
  · exact {
      stop := hstop
      cursor := by rw [henv]
      file := by rw [henv]
      index := UInt32.toNat_ofNat_of_lt' h32
      opcode := ⟨q, dst, hd, hop⟩
      once := honce }

/-- `LI R0, 7; IN R1; STORE R0, 0x100; RAND R2; HALT`, saved on its second frame. -/
theorem save_captures_instant_second_frame :
    CapturesInstant (imageOf [encode 0x0B 0 0 7, encode 0x09 1 0 0, encode 0x02 0 0 0x100,
      encode 0x0A 2 0 0, 0]) [⟨2, 0x09, 5⟩, ⟨4, 0x0A, 6⟩] 1 := by
  let bytes := imageOf [encode 0x0B 0 0 7, encode 0x09 1 0 0, encode 0x02 0 0 0x100,
    encode 0x0A 2 0 0, 0]
  have hframes : (cmdRecord bytes (fun _ => 5) (fun _ => 6) 5).bind RecordOutcome.frames =
      some [⟨2, 0x09, 5⟩, ⟨4, 0x0A, 6⟩] := by
    decide +kernel
  obtain ⟨r, vm, hrec⟩ := halted_of_frames hframes
  refine (save_captures_instant_iff bytes _ _ 5 r vm _ hrec 1 (by decide) (by decide)).mpr ?_
  rintro ⟨vm0, n, u, v, hb, -, hv, -⟩
  -- the replay is over after five turns
  obtain ⟨vm0', y, hb', hy, -⟩ := replay_follows_record hrec
  obtain rfl : vm0 = vm0' := Option.some.inj (hb.symm.trans hb')
  rw [after_turn_eq _ (boot_running hb).1] at hv
  obtain ⟨w, hw, -⟩ := StepLoop.after_ok_of_le hv (k := 5) (by omega)
  cases hw.symm.trans hy

/-! ## Waiting for `2 ^ 65` cycles -/

/-- `LI R1, 1; SUB R0, R1; JNZ R0, 4; SUB R2, R1; JNZ R2, 4; IN R3; HALT`: both loops count down
from 0, so each takes `2 ^ 32` rounds. -/
def longWait : List UInt8 :=
  imageOf [encode 0x0B 1 0 1, encode 0x04 0 1 0, encode 0x08 0 0 4, encode 0x04 2 1 0,
    encode 0x08 2 0 4, encode 0x09 3 0 0, 0]

/-- `m` runs `longWait` and has not passed its `IN`: R0 and R2 count the loops. -/
structure Looping {ε : Type} (e : ε) (r0 r2 pc : UInt32) (m : Machine ε) : Prop where
  mem     : m.mem = fun a : Addr => longWait.getD a 0
  regs    : m.state.regs = #v[r0, 1, r2, 0, 0, 0, 0, 0]
  pc      : m.state.pc = pc
  running : m.state.halted = .running
  off     : m.state.snapInterval = 0
  env     : m.env = e

section Looping

variable {ε : Type} (E : Env ε) {e : ε} {m : Machine ε} {r0 r2 pc : UInt32}

theorem Looping.fetched (h : Looping e r0 r2 pc m) :
    m.fetched = memLoadU32 (fun a : Addr => longWait.getD a 0) pc := by
  unfold Machine.fetched
  rw [h.mem, h.pc]

/-- One instruction of the loops. -/
theorem Looping.next (h : Looping e r0 r2 pc m) (i : Instr) (r0' r2' pc' : UInt32)
    (hd : decode (memLoadU32 (fun a : Addr => longWait.getD a 0) pc) = some i)
    (he : ∀ mem flags, ∃ flags', i.effect mem ⟨#v[r0, 1, r2, 0, 0, 0, 0, 0], pc + 4, flags⟩ =
      .next ⟨#v[r0', 1, r2', 0, 0, 0, 0, 0], pc', flags'⟩) :
    ∃ m', m.cycle E = .ok m' ∧ Looping e r0' r2' pc' m' := by
  obtain ⟨flags', heff⟩ := he m.mem m.state.flags
  have hcpu : m.advance.state.cpu = ⟨#v[r0, 1, r2, 0, 0, 0, 0, 0], pc + 4, m.state.flags⟩ := by
    rw [← h.regs, ← h.pc]
    rfl
  rw [← hcpu] at heff
  exact ⟨_, cycle_next E h.off (h.fetched ▸ hd) heff, h.mem, rfl, rfl, h.running, h.off, h.env⟩

/-- One off a count. -/
theorem count_sub (k : Nat) : UInt32.ofNat (k + 1) - 1 = UInt32.ofNat k := by
  rw [UInt32.ofNat_add]
  exact UInt32.add_sub_cancel _ _

/-- A jump taken while the count is not 0. -/
theorem count_jump {α : Type} {k : Nat} (hk : k < 2 ^ 32) (a b : α) :
    (if UInt32.ofNat k ≠ 0 then a else b) = if k = 0 then b else a := by
  have hzero : UInt32.ofNat k = 0 ↔ k = 0 := by
    rw [← UInt32.toNat_inj, UInt32.toNat_ofNat_of_lt' hk]
    rfl
  simp only [ne_eq, hzero, ite_not]

/-- **A round of the inner loop**: `SUB R0, R1; JNZ R0, 4`. -/
theorem Looping.inner {k : Nat} (hk : k < 2 ^ 32)
    (h : Looping e (UInt32.ofNat (k + 1)) r2 4 m) :
    ∃ m', StepLoop.after (Machine.cycle E) 2 m = .ok m' ∧
      Looping e (UInt32.ofNat k) r2 (if k = 0 then 12 else 4) m' := by
  obtain ⟨u, hu, hloop⟩ := h.next E (.alu .sub 0 1) (UInt32.ofNat k) r2 8 (by decide +kernel)
    fun _ _ => ⟨_, by rw [← count_sub k]; rfl⟩
  obtain ⟨v, hv, hloop'⟩ := hloop.next E (.jnz 0 4) (UInt32.ofNat k) r2
    (if k = 0 then 12 else 4) (by decide +kernel) fun _ flags => by
      refine ⟨flags, ?_⟩
      change Effect.next (if UInt32.ofNat k ≠ 0 then _ else _) = _
      rw [count_jump hk]
      split <;> rfl
  exact ⟨v, by rw [StepLoop.after_succ_ok hu, StepLoop.after_one, hv], hloop'⟩

/-- **A round of the outer loop**: all of the inner one, then `SUB R2, R1; JNZ R2, 4`. -/
theorem Looping.outer {k : Nat} (hk : k < 2 ^ 32)
    (h : Looping e 0 (UInt32.ofNat (k + 1)) 4 m) :
    ∃ m', StepLoop.after (Machine.cycle E) (2 ^ 32 * 2 + 2) m = .ok m' ∧
      Looping e 0 (UInt32.ofNat k) (if k = 0 then 20 else 4) m' := by
  obtain ⟨u, hu, -, hloop⟩ := StepLoop.after_countdown (c := 2)
    (P := fun j m => j ≤ 2 ^ 32 ∧ Looping e (UInt32.ofNat j) (UInt32.ofNat (k + 1))
      (if j = 0 then 12 else 4) m)
    (fun j m ⟨hj, hm⟩ => by
      obtain ⟨m', hm', hloop⟩ := Looping.inner E (Nat.lt_of_succ_le hj) hm
      exact ⟨m', hm', Nat.le_of_succ_le hj, hloop⟩)
    (2 ^ 32) ⟨Nat.le_refl _, h⟩
  obtain ⟨v, hv, hloop'⟩ := hloop.next E (.alu .sub 2 1) 0 (UInt32.ofNat k) 16
    (by decide +kernel) fun _ _ => ⟨_, by rw [← count_sub k]; rfl⟩
  obtain ⟨w, hw, hloop''⟩ := hloop'.next E (.jnz 2 4) 0 (UInt32.ofNat k)
    (if k = 0 then 20 else 4) (by decide +kernel) fun _ flags => by
      refine ⟨flags, ?_⟩
      change Effect.next (if UInt32.ofNat k ≠ 0 then _ else _) = _
      rw [count_jump hk]
      split <;> rfl
  refine ⟨w, ?_, hloop''⟩
  rw [StepLoop.after_add_ok hu, StepLoop.after_succ_ok hv, StepLoop.after_one, hw]

/-- How many cycles `longWait` takes to come to its `IN`. -/
def longWaitCycles : Nat := 1 + 2 ^ 32 * (2 ^ 32 * 2 + 2)

/-- **`longWait` comes to its `IN`.** -/
theorem longWait_loops {vm0 : VM} (hb : VM.boot longWait = some vm0) (e : ε) :
    ∃ m, StepLoop.after (Machine.cycle E) longWaitCycles (.start vm0 e) = .ok m ∧
      Looping e 0 0 20 m := by
  obtain ⟨hrun, hint⟩ := boot_running hb
  have hvm := boot_eq_some hb
  have hword : (Machine.start vm0 e).fetched =
      memLoadU32 (fun a : Addr => longWait.getD a 0) 0 := by
    rw [hvm]
    rfl
  obtain ⟨u, hu, hhead⟩ : ∃ u, (Machine.start vm0 e).cycle E = .ok u ∧ Looping e 0 0 4 u := by
    refine ⟨_, cycle_next E (i := .li 1 1) hint (hword ▸ by decide +kernel) rfl, ?_⟩
    rw [hvm]
    exact ⟨rfl, rfl, rfl, rfl, rfl, rfl⟩
  obtain ⟨m, hm, -, hloop⟩ := StepLoop.after_countdown (c := 2 ^ 32 * 2 + 2)
    (P := fun j m => j ≤ 2 ^ 32 ∧ Looping e 0 (UInt32.ofNat j) (if j = 0 then 20 else 4) m)
    (fun j m ⟨hj, hm⟩ => by
      obtain ⟨m', hm', hloop⟩ := Looping.outer E (Nat.lt_of_succ_le hj) hm
      exact ⟨m', hm', Nat.le_of_succ_le hj, hloop⟩)
    (2 ^ 32) ⟨Nat.le_refl _, hhead⟩
  refine ⟨m, ?_, hloop⟩
  unfold longWaitCycles
  rw [Nat.add_comm, StepLoop.after_succ_ok hu, hm]

end Looping

/-- The recording of it. -/
theorem longWait_recorded : ∃ vm,
    cmdRecord longWait (fun _ => 5) (fun _ => 0) (longWaitCycles + 2) =
      some (.halted .normal vm [⟨UInt64.ofNat longWaitCycles + 1, 0x09, 5⟩]) := by
  obtain ⟨vm0, hb⟩ : ∃ vm0, VM.boot longWait = some vm0 := ⟨_, rfl⟩
  obtain ⟨hrun, hint⟩ := boot_running hb
  let E := recordEnv (fun _ => 5) (fun _ => 0)
  obtain ⟨m, hm, hloop⟩ := longWait_loops E hb ⟨0, 0, []⟩
  have hcycle := after_cycleCount hm
  rw [show (Machine.start vm0 (⟨0, 0, []⟩ : Recorder)).state.cycleCount = 0 by
    rw [boot_eq_some hb]; rfl, UInt64.zero_add] at hcycle
  -- the `IN` and the `HALT`
  have hin : decode m.fetched = some (.ask .input 3) := hloop.fetched ▸ by decide +kernel
  obtain ⟨u, hu, hmem, hpc, hframes, hoff⟩ : ∃ u, m.cycle E = .ok u ∧ u.mem = m.mem ∧
      u.state.pc = m.state.pc + 4 ∧
      u.env.frames = m.env.frames ++ [⟨m.state.cycleCount + 1, 0x09, 5⟩] ∧
      u.state.snapInterval = 0 := by
    refine ⟨_, (cycle_off E hloop.off).trans ((retire_ask hin).trans rfl), rfl, rfl, rfl, ?_⟩
    exact hloop.off
  have hhalt : decode u.fetched = some .halt := by
    unfold Machine.fetched
    rw [hmem, hpc, hloop.mem, hloop.pc]
    decide +kernel
  rw [hloop.env, hcycle, List.nil_append] at hframes
  have hlast := (StepLoop.after_add_ok hm 2).trans ((StepLoop.after_succ_ok hu 1).trans
    ((StepLoop.after_one u).trans (cycle_stop E hoff hhalt rfl)))
  exact ⟨_, (cmdRecord_eq_some_iff hb).mpr
    ⟨_, hlast, recordVerdict_eq_halted.mpr ⟨rfl, rfl, hframes⟩⟩⟩

/-- **`cmd_save` can miss the instant**: on `longWait` it stops in the `SUB` it fetches in the cycle
that has the number the `IN` has once the cycle count has wrapped. -/
theorem save_misses_instant :
    ¬ ∀ (bytes : List UInt8) (stdin rng : Nat → UInt32) (fuel : Nat) (r : HaltReason) (vm : VM)
      (frames : Trace), cmdRecord bytes stdin rng fuel = some (.halted r vm frames) →
        ∀ atFrame, atFrame < frames.length → atFrame < 2 ^ 32 →
          CapturesInstant bytes frames atFrame := by
  intro hall
  obtain ⟨vm, hrec⟩ := longWait_recorded
  obtain ⟨vm0, hb⟩ : ∃ vm0, VM.boot longWait = some vm0 := ⟨_, rfl⟩
  obtain ⟨hrun, hint⟩ := boot_running hb
  refine (hall _ _ _ _ _ _ _ hrec 0 (by decide) (by decide)).not_lingers ?_
  -- the replay stays on the frame for all of the loops
  obtain ⟨m, hm, hloop⟩ := longWait_loops
    (replayEnv [⟨UInt64.ofNat longWaitCycles + 1, 0x09, 5⟩]) hb 0
  have hlong : 0 + 2 ^ 64 ≤ longWaitCycles := by
    unfold longWaitCycles
    omega
  obtain ⟨w, hw, hcursor⟩ := cursor_between hint (StepLoop.after_zero _) hm (Nat.zero_le _) hlong
    (Nat.le_of_eq hloop.env)
  have hreplay := after_turn_eq (m := .start vm0 0)
    (replayEnv [⟨UInt64.ofNat longWaitCycles + 1, 0x09, 5⟩]) hrun
  exact ⟨vm0, 0, _, w, hb, rfl, (hreplay _).trans hw, rfl, hcursor⟩

end RetroVM

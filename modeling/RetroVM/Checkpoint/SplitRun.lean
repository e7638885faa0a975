import RetroVM.Checkpoint.Drivers
import RetroVM.Trace.Fidelity
import RetroVM.Engine.Stale
import Mathlib.Data.Nat.Find

/-!
# A split run against an uninterrupted one (`tests/save_restore.sh`)

The run of `cmd_save` follows the replay in lock step until the replay is about to take the frame
asked for (`SaveInstant`), and there it halts. `cmd_restore` starts in the registers, pc, sp, flags
and cycle of that instant, its cursor on the same frame, but in the memory of the image: the bytes
stored to before the instant are stale. Past that point both runs do the same for as long as no
stale byte is read, and they end in the same memory if every stale byte was stored to again.

Results:
* `saving_turn`, `saving_stops`: the lock step of `cmd_save` and the replay, up to the instant.
* `exists_saveInstant`: a replay that reads every frame has an instant for each.
* `restore_of_instant`: what `cmd_restore` comes to.
* **`restore_reproduces_replay_iff`**.
-/

namespace RetroVM

variable {reader : Trace} {atFrame : Nat} {f : TraceFrame}

/-! ## The instant -/

/-- The replay fetches in the cycle of frame `f`, its cursor on `atFrame`. -/
def AtFrame (f : TraceFrame) (atFrame : Nat) (k : Machine Nat) : Prop :=
  k.env = atFrame ∧ k.state.cycleCount + 1 = f.cycle

/-- On the turn from `k` the replay takes frame `atFrame`. -/
def TakesFrame (reader : Trace) (atFrame : Nat) (k : Machine Nat) : Prop :=
  k.env = atFrame ∧ ∃ k', turn (replayEnv reader) k = .ok k' ∧ k'.env = atFrame + 1

/-- `k` is where the replay of `bytes` stands when `cmd_save` halts: about to fetch, for the first
time, in the cycle of frame `atFrame` and with the cursor on it. -/
def SaveInstant (bytes : List UInt8) (reader : Trace) (atFrame : Nat) (k : Machine Nat) : Prop :=
  ∃ vm0 f n, VM.boot bytes = some vm0 ∧ reader[atFrame]? = some f ∧
    StepLoop.after (Machine.cycle (replayEnv reader)) n (.start vm0 0) = .ok k ∧
    AtFrame f atFrame k ∧
    StepLoop.Before (AtFrame f atFrame) (Machine.cycle (replayEnv reader)) (.start vm0 0) n

/-- What a checkpoint of `k` holds. -/
def checkpointOf (tag : HaltReason) (atFrame : Nat) (k : Machine Nat) : CheckpointState where
  frameIndex := UInt32.ofNat atFrame
  halted := tag.code
  flags := k.state.flags
  regs := k.state.regs
  pc := k.state.pc
  sp := k.state.sp

/-! ## Saving -/

/-- `cmd_save` follows the replay, its sink not done yet. -/
structure Saving (m : Machine (Nat × SaveState)) (k : Machine Nat) : Prop where
  alike    : Alike ∅ (fun e cursor => e = (cursor, ⟨false, none⟩)) [] [] m k
  running  : m.state.halted = .running
  interval : m.state.snapInterval = 1
  timer    : m.state.snapTimer = 1
  off      : k.state.snapInterval = 0

/-- What the sink does before the instant. -/
theorem saveSink_miss {k : Machine Nat} (h : ¬ AtFrame f atFrame k) {vm : VM}
    (hc : vm.state.cycleCount = k.state.cycleCount + 1) (writable : Bool) (s : Snapshot) :
    saveSink atFrame f.cycle writable s vm (k.env, ⟨false, none⟩) =
      (none, (k.env, ⟨false, none⟩)) := by
  unfold saveSink
  simp only [Bool.false_eq_true, if_false]
  by_cases hcursor : k.env = atFrame
  · have hcycle : vm.state.cycleCount ≠ f.cycle := by
      intro he
      exact h ⟨hcursor, hc ▸ he⟩
    rw [if_neg (not_not_intro hcursor), if_pos hcycle]
  · rw [if_pos hcursor]

/-- What it does at the instant. -/
theorem saveSink_hit {k : Machine Nat} (h : AtFrame f atFrame k) {vm : VM}
    (hc : vm.state.cycleCount = k.state.cycleCount + 1) (s : Snapshot) :
    saveSink atFrame f.cycle true s vm (k.env, ⟨false, none⟩) =
      (some .checkpoint,
        (k.env, ⟨true, some (checkpointSave (saveCheckpoint atFrame vm.state))⟩)) := by
  unfold saveSink
  simp only [Bool.false_eq_true, if_false]
  rw [if_neg (not_not_intro h.1), if_neg (not_not_intro (hc.trans h.2)),
    if_neg (not_not_intro trivial)]

section SavingTurn

variable {m : Machine (Nat × SaveState)} {k : Machine Nat}

/-- **One turn before the instant.** -/
theorem saving_turn (writable : Bool) (h : Saving m k) (hmiss : ¬ AtFrame f atFrame k) :
    StepLoop.Matched Saving (fun _ _ => True)
      (m.cycle (saveEnv reader atFrame f.cycle writable)) (k.cycle (replayEnv reader)) := by
  have hcycle : m.advance.vm.drained.state.cycleCount = k.state.cycleCount + 1 :=
    congrArg (· + 1) h.alike.cycleCount
  have hsink := saveSink_miss hmiss hcycle writable m.advance.vm.snapshot
  rw [← h.alike.env] at hsink
  have htick := snapTick_every (E := saveEnv reader atFrame f.cycle writable) (m := m.advance)
    rfl h.interval h.timer h.running (congrArg Prod.fst hsink)
  have henv : (saveSink atFrame f.cycle writable m.advance.vm.snapshot m.advance.vm.drained
      m.advance.env).2 = (k.env, ⟨false, none⟩) :=
    (congrArg Prod.snd hsink).trans h.alike.env
  have hmatch := cycle_alike (F := replayEnv reader) h.alike h.running h.off htick henv
    (fun a _ => Set.notMem_empty a) fun q dst _ => by
      rw [henv]
      exact beside_answers (replayHooks reader) q _ k.env (⟨false, none⟩ : SaveState)
  rw [Set.empty_sdiff] at hmatch
  have hclock := cycle_every (saveEnv reader atFrame f.cycle writable) h.interval h.timer
  refine hmatch.imp (fun u v hu hv huv => ?_) fun _ _ _ _ _ => trivial
  rw [hu] at hclock
  have hoff := (cycle_frame (replayEnv reader) k).2.2
  rw [hv] at hoff
  exact ⟨huv, cycle_running h.running hu, hclock.1, hclock.2, hoff.trans h.off⟩

/-- **The turn at the instant**: `cmd_save` writes the file and halts. -/
theorem saving_stops (h : Saving m k) (hhit : AtFrame f atFrame k) :
    ∃ x, m.cycle (saveEnv reader atFrame f.cycle true) = .error x ∧
      x.stop = .returned .checkpoint ∧
      x.machine.env =
        (atFrame, ⟨true, some (checkpointSave (checkpointOf .checkpoint atFrame k))⟩) := by
  have hcycle : m.advance.vm.drained.state.cycleCount = k.state.cycleCount + 1 :=
    congrArg (· + 1) h.alike.cycleCount
  have hsink := saveSink_hit hhit hcycle m.advance.vm.snapshot
  rw [← h.alike.env] at hsink
  have htick := snapTick_every_halt (E := saveEnv reader atFrame f.cycle true) (m := m.advance)
    rfl h.interval h.timer (r := .checkpoint) (by decide) (congrArg Prod.fst hsink)
  have hwritten : saveCheckpoint atFrame m.advance.vm.drained.state =
      checkpointOf .checkpoint atFrame k := by
    have hcpu := h.alike.cpu
    simp only [VMState.cpu, Cpu.mk.injEq] at hcpu
    obtain ⟨hregs, hpc, hflags⟩ := hcpu
    have hback : m.state.pc + 4 - 4 = k.state.pc := by
      rw [UInt32.add_sub_cancel]
      exact hpc
    ext1
    · rfl
    · rfl
    · exact hflags
    · exact hregs
    · exact hback
    · exact h.alike.sp
  refine ⟨_, by unfold Machine.cycle; rw [htick], rfl, ?_⟩
  refine (congrArg Prod.snd hsink).trans ?_
  rw [hwritten, hhit.1]

end SavingTurn

/-- What `cmd_save` leaves at the instant. -/
theorem cmdSave_of_instant {bytes : List UInt8} {k : Machine Nat}
    (h : SaveInstant bytes reader atFrame k) :
    ∃ fuel vm, cmdSave bytes reader atFrame true fuel =
      some (.saved (some (checkpointSave (checkpointOf .checkpoint atFrame k))) vm) := by
  obtain ⟨vm0, f, n, hb, hf, hk, hhit, hfirst⟩ := h
  obtain ⟨hrun, hint⟩ := boot_running hb
  have h0 : Saving (.start (vm0.setSnapshotInterval 1) (0, ⟨false, none⟩)) (.start vm0 0) :=
    ⟨⟨rfl, rfl, rfl, rfl, fun _ _ => rfl, rfl, rfl⟩, hrun, rfl, rfl, hint⟩
  obtain ⟨m, hm, hs⟩ := StepLoop.after_before
    (fun m k hs hmiss => saving_turn true hs hmiss) h0 hk hfirst
  obtain ⟨x, hx, hstop, henv⟩ := saving_stops hs hhit
  refine ⟨n + 1, x.machine.vm, (cmdSave_eq_some_iff hb hf).mpr ⟨x, ?_, ?_⟩⟩
  · rw [StepLoop.after_succ_right hm, hx]
  · unfold saveVerdict
    rw [hstop, henv]
    simp

/-- A frame is taken in its cycle, by a word that asks for it. -/
theorem TakesFrame.asks {k : Machine Nat} (h : TakesFrame reader atFrame k)
    (hoff : k.state.snapInterval = 0) :
    ∃ f q dst, reader[atFrame]? = some f ∧ AtFrame f atFrame k ∧
      decode k.fetched = some (.ask q dst) ∧ q.byte = f.opcode := by
  obtain ⟨rfl, k', hk', hnext⟩ := h
  rw [show turn (replayEnv reader) k = k.cycle (replayEnv reader) from goto_turn_eq_cycle _ k,
    cycle_off _ hoff] at hk'
  by_cases hask : ∃ q dst, decode k.fetched = some (.ask q dst)
  · obtain ⟨q, dst, hd⟩ := hask
    rw [retire_ask hd] at hk'
    change Machine.receive _ dst
      (consult (replayHooks reader) q (k.state.cycleCount + 1) k.env) = .ok k' at hk'
    cases hf : reader[k.env]? with
    | none =>
      rw [consult_replay_end hf] at hk'
      cases hk'
    | some f =>
      by_cases hkey : f.key = (k.state.cycleCount + 1, q.byte)
      · obtain ⟨hcycle, hop⟩ := Prod.mk.inj hkey
        exact ⟨f, q, dst, rfl, ⟨rfl, hcycle.symm⟩, hd, hop.symm⟩
      · rw [consult_replay_miss hf hkey] at hk'
        cases hk'
  · have henv := (retire_quiet (replayEnv reader) k.advance fun q dst hd => hask ⟨q, dst, hd⟩).1
    rw [hk', landed_ok] at henv
    have hsame : k'.env = k.env := henv
    omega

/-- **A replay that reads every frame takes each of them.** -/
theorem exists_takesFrame {vm0 : VM} (hint : vm0.state.snapInterval = 0) {y : Exit Nat}
    (hy : StepLoop.Leaves (Machine.cycle (replayEnv reader)) (.start vm0 0) y)
    (hread : y.machine.env = reader.length) (hN : atFrame < reader.length) :
    ∃ n k, StepLoop.after (Machine.cycle (replayEnv reader)) n (.start vm0 0) = .ok k ∧
      TakesFrame reader atFrame k := by
  -- the turn on which the cursor passes the frame
  obtain ⟨n, k, hk, hle, hlast⟩ :=
    hy.last_in (P := fun m => m.env ≤ atFrame) (Nat.zero_le atFrame)
  refine ⟨n, k, hk, ?_⟩
  rcases cycle_replay_cursor reader (after_off hint hk) with hsame | ⟨f, k', -, -, hk', hnext⟩
  · rcases hlast with ⟨u', hu', hgt⟩ | hexit
    · rw [hu'] at hsame
      exact absurd (hsame.symm ▸ hle) hgt
    · rw [hexit, landed_error, hread] at hsame
      omega
  · rcases hlast with ⟨u', hu', hgt⟩ | hexit
    · obtain rfl : k' = u' := Except.ok.inj (hk'.symm.trans hu')
      have hat : k.env = atFrame := by omega
      exact ⟨hat, k', (goto_turn_eq_cycle _ k).trans hk', hat ▸ hnext⟩
    · cases hk'.symm.trans hexit

/-- **A replay that reads every frame has an instant for each.** -/
theorem exists_saveInstant {bytes : List UInt8} {vm0 : VM} (hb : VM.boot bytes = some vm0)
    {y : Exit Nat} (hy : StepLoop.Leaves (Machine.cycle (replayEnv reader)) (.start vm0 0) y)
    (hread : y.machine.env = reader.length) (hN : atFrame < reader.length) :
    ∃ k, SaveInstant bytes reader atFrame k := by
  obtain ⟨-, hint⟩ := boot_running hb
  have htakes : ∃ n u, StepLoop.after (Machine.cycle (replayEnv reader)) n (.start vm0 0) = .ok u ∧
      AtFrame reader[atFrame] atFrame u := by
    obtain ⟨n, u, hu, ht⟩ := exists_takesFrame hint hy hread hN
    obtain ⟨f, -, -, hf, hat, -⟩ := ht.asks (after_off hint hu)
    rw [List.getElem?_eq_getElem hN] at hf
    exact ⟨n, u, hu, Option.some.inj hf ▸ hat⟩
  classical
  obtain ⟨k, hk, hhit⟩ := Nat.find_spec htakes
  exact ⟨k, vm0, reader[atFrame], Nat.find htakes, hb, List.getElem?_eq_getElem hN, hk, hhit,
    fun j u hj hu hat => Nat.find_min htakes hj ⟨u, hu, hat⟩⟩

/-- There is one instant at most. -/
theorem SaveInstant.unique {bytes : List UInt8} {reader : Trace} {atFrame : Nat}
    {k k' : Machine Nat}
    (h : SaveInstant bytes reader atFrame k) (h' : SaveInstant bytes reader atFrame k') :
    k = k' := by
  obtain ⟨vm0, f, n, hb, hf, hk, hat, hfirst⟩ := h
  obtain ⟨vm0', f', n', hb', hf', hk', hat', hfirst'⟩ := h'
  obtain rfl := Option.some.inj (hb.symm.trans hb')
  obtain rfl := Option.some.inj (hf.symm.trans hf')
  obtain rfl : n = n' := by
    rcases Nat.lt_trichotomy n n' with hlt | heq | hgt
    · exact absurd hat (hfirst' n k hlt hk)
    · exact heq
    · exact absurd hat' (hfirst n' k' hgt hk')
  exact Except.ok.inj (hk.symm.trans hk')

/-! ## Restoring -/

/-- The bytes of `k`'s memory that are not what the image has there. -/
def staleBytes (bytes : List UInt8) (k : Machine Nat) : Set Addr :=
  {a | bytes.getD a 0 ≠ k.mem a}

/-- A stale byte was stored to. -/
theorem rewritten_of_stale {bytes : List UInt8} {vm0 : VM} (hb : VM.boot bytes = some vm0)
    {E : Env Nat} {n : Nat} {k : Machine Nat}
    (hk : StepLoop.after (Machine.cycle E) n (.start vm0 0) = .ok k) {a : Addr}
    (ha : a ∈ staleBytes bytes k) : Rewritten E (.start vm0 0) n a := by
  by_contra hno
  refine ha ?_
  rw [after_mem_frame hk hno, boot_eq_some hb]
  rfl

/-- **A restore starts where the replay stands, on stale memory.** -/
theorem restored_staleIn (tag : HaltReason) {bytes : List UInt8} {vm0 : VM}
    (hb : VM.boot bytes = some vm0) {k : Machine Nat} (hat : AtFrame f atFrame k)
    (hrun : k.state.halted = .running) (hoff : k.state.snapInterval = 0) :
    StaleIn (staleBytes bytes k) Eq (calls k.history)
      (.start (vm0.setState (restoredState (checkpointOf tag atFrame k) f.cycle)) atFrame) k where
  alike := {
    cpu := rfl
    cycleCount := by
      change f.cycle - 1 = k.state.cycleCount
      rw [← hat.2, UInt64.add_sub_cancel]
    sp := rfl
    halted := hrun.symm
    mem := fun a ha => by
      rw [boot_eq_some hb]
      exact Decidable.of_not_not ha
    env := hat.1.symm
    calls := List.append_nil _ }
  differs := fun a ha => by
    rw [boot_eq_some hb]
    exact ha
  running := rfl
  off := rfl
  off' := hoff

/-- What `save` and `restore` are for: the checkpoint at `atFrame` can be saved, and restoring it
ends as replaying the whole trace does. -/
def RestoresLikeReplay (bytes : List UInt8) (reader : Trace) (atFrame : Nat) : Prop :=
  ∃ fuel file vm fuel' n r vm' fuel'' vm'',
    cmdSave bytes reader atFrame true fuel = some (.saved (some file) vm) ∧
      cmdRestore bytes reader file fuel' = some (.restored n r vm') ∧
      cmdReplay bytes reader fuel'' = some (.verified r vm'') ∧ SameVisible vm' vm''

/-- A restore from the instant runs as the replay does, and ends with the bytes still stale. -/
theorem restore_of_instant (tag : HaltReason) {bytes : List UInt8} {vm0 : VM}
    (hb : VM.boot bytes = some vm0) {k : Machine Nat} (hf : reader[atFrame]? = some f)
    (h32 : atFrame < 2 ^ 32) (hc : f.cycle ≠ 0)
    (hat : AtFrame f atFrame k) (hrun : k.state.halted = .running)
    (hoff : k.state.snapInterval = 0)
    (hno : NoStaleRead (replayEnv reader) k (staleBytes bytes k)) {d : Nat} {y : Exit Nat}
    (hy : StepLoop.after (Machine.cycle (replayEnv reader)) d k = .error y)
    {r : HaltReason} (hstop : y.stop = .returned r) (hread : y.machine.env = reader.length) :
    ∃ x, StaleExit (stillStale (replayEnv reader) k (staleBytes bytes k) d) Eq
        (calls k.history) x y ∧
      cmdRestore bytes reader (checkpointSave (checkpointOf tag atFrame k)) d =
        some (.restored (reader.length - atFrame) r x.machine.vm) := by
  have hindex : (checkpointOf tag atFrame k).frameIndex.toNat = atFrame :=
    UInt32.toNat_ofNat_of_lt' h32
  have hmatch := stale_run (sameHooks_rfl (replayEnv reader))
    (restored_staleIn tag hb hat hrun hoff) hno d
  rw [hy] at hmatch
  obtain ⟨x, hx, he⟩ := hmatch.error_of
  have hcursor : x.machine.env = reader.length := he.alike.machine.env.trans hread
  refine ⟨x, he, (cmdRestore_eq_some_iff hb (checkpointLoad_checkpointSave _)
    (by rw [hindex, hf]) hc).mpr ⟨x, by rw [hindex, hx], ?_⟩⟩
  rw [restoreVerdict_eq_restored, hindex]
  exact ⟨he.alike.stop.trans hstop, Nat.le_of_eq hcursor.symm, by rw [hcursor], rfl⟩

/-- Whatever `cmd_save` writes is the file of the instant. -/
theorem saved_of_instant {bytes : List UInt8} {k : Machine Nat}
    (hk : SaveInstant bytes reader atFrame k) {fuel : Nat} {file : List UInt8} {vm : VM}
    (h : cmdSave bytes reader atFrame true fuel = some (.saved (some file) vm)) :
    file = checkpointSave (checkpointOf .checkpoint atFrame k) := by
  obtain ⟨fuelS, vmS, hsave⟩ := cmdSave_of_instant hk
  have hsame := cmdSave_unique h hsave
  simp only [SaveOutcome.saved.injEq, Option.some.injEq] at hsame
  exact hsame.1

/-- A frame of cycle 0 is refused. -/
theorem refused_of_cycle_zero {bytes : List UInt8} {k : Machine Nat}
    (hk : SaveInstant bytes reader atFrame k) (hf : reader[atFrame]? = some f)
    (h32 : atFrame < 2 ^ 32) (hzero : f.cycle = 0) : ¬ RestoresLikeReplay bytes reader atFrame := by
  rintro ⟨fuel₁, file, vm₁, fuel₂, m, r₂, vm₂, fuel₃, vm₃, hs, hr, -⟩
  have hindex : (checkpointOf .checkpoint atFrame k).frameIndex.toNat = atFrame :=
    UInt32.toNat_ofNat_of_lt' h32
  rw [saved_of_instant hk hs] at hr
  unfold cmdRestore restoreStart at hr
  simp only [checkpointLoad_checkpointSave, hindex, hf, if_pos hzero] at hr
  cases hr

/-- **When a restore ends as the whole replay does.** Take any recorded trace, any frame of it,
and the instant `k` at which `cmd_save` halts there. A frame of cycle 0 is refused. Otherwise, if
the replay reads no stale byte past `k` before storing to it, restoring ends as the replay does
exactly when the replay stores to every byte that is stale at `k`. -/
theorem restore_reproduces_replay_iff (bytes : List UInt8) (stdin rng : Nat → UInt32) (fuel : Nat)
    (r : HaltReason) (vm : VM) (frames : Trace)
    (hrec : cmdRecord bytes stdin rng fuel = some (.halted r vm frames)) (atFrame : Nat)
    (hN : atFrame < frames.length) (h32 : atFrame < 2 ^ 32) :
    ∃ k, SaveInstant bytes frames atFrame k ∧
      (frames[atFrame].cycle = 0 → ¬ RestoresLikeReplay bytes frames atFrame) ∧
      (frames[atFrame].cycle ≠ 0 →
        NoStaleRead (replayEnv frames) k (staleBytes bytes k) →
        (RestoresLikeReplay bytes frames atFrame ↔
          ∀ a ∈ staleBytes bytes k, ∃ n, Rewritten (replayEnv frames) k n a)) := by
  obtain ⟨vm0, y, hb, hy, hstop, hread, -⟩ := replay_follows_record hrec
  obtain ⟨hrun0, hint⟩ := boot_running hb
  obtain ⟨k, hk⟩ := exists_saveInstant hb ⟨fuel, hy⟩ hread hN
  obtain ⟨fuelS, vmS, hsave⟩ := cmdSave_of_instant hk
  have hreplay : cmdReplay bytes frames fuel = some (.verified r y.machine.vm) :=
    (cmdReplay_eq_some_iff hb).mpr ⟨y, hy, replayVerdict_eq_verified.mpr
      ⟨hstop, Nat.le_of_eq hread.symm, rfl⟩⟩
  obtain ⟨vm0', f, n, hb', hf, hkn, hat, -⟩ := id hk
  obtain rfl : vm0 = vm0' := Option.some.inj (hb.symm.trans hb')
  obtain rfl : frames[atFrame] = f := by
    rw [List.getElem?_eq_getElem hN] at hf
    exact Option.some.inj hf
  refine ⟨k, hk, refused_of_cycle_zero hk hf h32, fun hc hno => ?_⟩
  have hrun : k.state.halted = .running :=
    StepLoop.after_invariant (fun _ _ => cycle_running) hrun0 hkn
  have hoff : k.state.snapInterval = 0 := after_off hint hkn
  obtain ⟨d, hd⟩ := StepLoop.Leaves.rest hkn ⟨fuel, hy⟩
  obtain ⟨x, hx, hrestore⟩ :=
    restore_of_instant .checkpoint hb hf h32 hc hat hrun hoff hno hd hstop hread
  constructor
  · rintro ⟨fuel₁, file, vm₁, fuel₂, m, r₂, vm₂, fuel₃, vm₃, hs, hr, hp, hsame⟩ a ha
    rw [saved_of_instant hk hs] at hr
    obtain ⟨-, -, rfl⟩ := RestoreOutcome.restored.inj (cmdRestore_unique hrestore hr)
    obtain ⟨-, rfl⟩ := ReplayOutcome.verified.inj (cmdReplay_unique hreplay hp)
    by_contra hnever
    exact hx.differs a ⟨ha, fun h => hnever ⟨d, h⟩⟩ (congrFun hsame.mem a)
  · intro hall
    have hnone : stillStale (replayEnv frames) k (staleBytes bytes k) d = ∅ := by
      ext a
      simp only [stillStale, Set.mem_ofPred_eq, Set.mem_empty_iff_false, iff_false, not_and,
        not_not]
      intro ha
      obtain ⟨n', hn'⟩ := hall a ha
      exact hn'.of_exit hd
    rw [hnone] at hx
    exact ⟨fuelS, _, vmS, d, _, r, _, fuel, _, hsave, hrestore, hreplay,
      hx.alike.machine.sameVisible⟩

/-- `LI R0, 7; STORE R0, 0x100; IN R1; STORE R1, 0x100; LOAD R2, 0x100; HALT`. -/
def storeThenStore : List UInt8 :=
  imageOf [encode 0x0B 0 0 7, encode 0x02 0 0 0x100, encode 0x09 1 0 0, encode 0x02 1 0 0x100,
    encode 0x01 2 0 0x100, 0]

/-- What it stored before the `IN` is stale, and it stores there again before it reads it. -/
theorem restore_reproduces_replay_stored_again :
    RestoresLikeReplay storeThenStore [⟨3, 0x09, 5⟩] 0 := by
  have hframes : (cmdRecord storeThenStore (fun _ => 5) (fun _ => 0) 6).bind
      RecordOutcome.frames = some [⟨3, 0x09, 5⟩] := by
    decide +kernel
  obtain ⟨r, vm, hrec⟩ := halted_of_frames hframes
  obtain ⟨k, hk, -, hiff⟩ :=
    restore_reproduces_replay_iff _ _ _ 6 r vm _ hrec 0 (by decide) (by decide)
  have hb : VM.boot storeThenStore = some _ := boot_of_le (by decide)
  let E := replayEnv [⟨3, 0x09, 5⟩]
  let m0 : Machine Nat := .start { VM.init with mem := fun a => storeThenStore.getD a 0 } 0
  have hruns : ∀ i : Fin 5, ((StepLoop.after (Machine.cycle E) i m0).toOption.map fun m =>
      (m.state.pc, decode m.fetched)) = some ([(0, some (.li 0 7)), (4, some (.store 0 0x100)),
        (8, some (.ask .input 1)), (12, some (.store 1 0x100)),
        (16, some (.load 2 0x100))].get i) := by
    decide +kernel
  have hseen : ∀ i : Fin 3, ((StepLoop.after (Machine.cycle E) i m0).toOption.map fun m =>
      (m.env, m.state.cycleCount)) = some (0, UInt64.ofNat i) := by
    decide +kernel
  have hat : ∀ (i : Fin 3) u, StepLoop.after (Machine.cycle E) i m0 = .ok u →
      (AtFrame ⟨3, 0x09, 5⟩ 0 u ↔ i = 2) := by
    intro i u hu
    have hi := hseen i
    rw [hu] at hi
    obtain ⟨henv, hcycle⟩ := Prod.mk.inj (Option.some.inj hi)
    have hcount : ∀ i : Fin 3, (0 = 0 ∧ UInt64.ofNat i.val + 1 = 3 ↔ i = 2) := by decide
    unfold AtFrame
    rw [henv, hcycle]
    exact hcount i
  obtain ⟨m₀, hm₀, hreads₀, hwrites₀⟩ := exists_footprint (hruns 0)
  obtain ⟨m₁, hm₁, hreads₁, hwrites₁⟩ := exists_footprint (hruns 1)
  obtain ⟨m₂, hm₂, hreads₂, hwrites₂⟩ := exists_footprint (hruns 2)
  obtain ⟨m₃, hm₃, hreads₃, hwrites₃⟩ := exists_footprint (hruns 3)
  have hinstant : SaveInstant storeThenStore [⟨3, 0x09, 5⟩] 0 m₂ :=
    ⟨_, _, 2, hb, rfl, hm₂, (hat 2 m₂ hm₂).mpr rfl, fun j u hj hu h => by
      have heq := (hat ⟨j, Nat.lt_succ_of_lt hj⟩ u hu).mp h
      exact absurd (congrArg Fin.val heq) (Nat.ne_of_lt hj)⟩
  obtain rfl := hk.unique hinstant
  have hstale : ∀ a ∈ staleBytes storeThenStore k, a ∈ cells 0x100 := by
    intro a ha
    obtain ⟨i, hi, u, hu, hw⟩ := rewritten_of_stale hb hm₂ ha
    obtain rfl | rfl : i = 0 ∨ i = 1 := by omega
    · obtain rfl := Except.ok.inj (hu.symm.trans hm₀)
      rw [hwrites₀] at hw
      cases hw
    · obtain rfl := Except.ok.inj (hu.symm.trans hm₁)
      rw [hwrites₁] at hw
      exact hw
  have hthird : StepLoop.after (Machine.cycle E) 1 k = .ok m₃ :=
    (StepLoop.after_add_ok hm₂ 1).symm.trans hm₃
  have hagain : ∀ a ∈ cells 0x100, ∀ n, 2 ≤ n → Rewritten E k n a := fun a ha n hn =>
    ⟨1, hn, m₃, hthird, hwrites₃ ▸ ha⟩
  have hfetch : ∀ a, ∀ p ≤ 0xFC, a ∈ cells (UInt32.ofNat p) → a ∉ cells 0x100 :=
    fun a p hp => cells_apart (q := 0x100) (by omega) (by decide)
  refine (hiff (by decide) fun n m' hm' a hread ha => ?_).mpr fun a ha =>
    ⟨2, hagain a (hstale a ha) 2 (Nat.le_refl 2)⟩
  have hcell := hstale a ha
  match n with
  | 0 =>
    obtain rfl := Except.ok.inj hm'
    rw [hreads₂] at hread
    exact absurd hcell (hfetch a 8 (by decide) (hread.resolve_right (Set.notMem_empty a)))
  | 1 =>
    obtain rfl := Except.ok.inj (hm'.symm.trans hthird)
    rw [hreads₃] at hread
    exact absurd hcell (hfetch a 12 (by decide) (hread.resolve_right (Set.notMem_empty a)))
  | n + 2 => exact hagain a hcell _ (Nat.le_add_left 2 n)

/-- `LI R0, 7; STORE R0, 0x100; IN R1; LOAD R2, 0x100; HALT`. -/
def storeThenLoad : List UInt8 :=
  imageOf [encode 0x0B 0 0 7, encode 0x02 0 0 0x100, encode 0x09 1 0 0, encode 0x01 2 0 0x100, 0]

/-- The recording of it on input 5. -/
theorem storeThenLoad_frames :
    (cmdRecord storeThenLoad (fun _ => 5) (fun _ => 0) 5).bind RecordOutcome.frames =
      some [⟨3, 0x09, 5⟩] := by
  decide +kernel

/-- **A restore can miss what was stored before the checkpoint**: `LOAD R2, 0x100` gives 0 after the
restore and 7 in the replay. -/
theorem restore_misses_stored_word :
    ¬ ∀ (bytes : List UInt8) (stdin rng : Nat → UInt32) (fuel : Nat) (r : HaltReason) (vm : VM)
      (frames : Trace), cmdRecord bytes stdin rng fuel = some (.halted r vm frames) →
        ∀ atFrame, atFrame < frames.length → atFrame < 2 ^ 32 →
          RestoresLikeReplay bytes frames atFrame := by
  intro hall
  obtain ⟨r, vm, hrec⟩ := halted_of_frames storeThenLoad_frames
  obtain ⟨fuel₁, file, vm₁, fuel₂, n, r₂, vm₂, fuel₃, vm₃, hs, hr, hp, hsame⟩ :=
    hall _ _ _ _ r vm _ hrec 0 (by decide) (by decide)
  let written : SaveOutcome → Option (List UInt8)
    | .saved file _ => file
    | _ => none
  let loaded : RestoreOutcome → Option UInt32
    | .restored _ _ vm => some (vm.state.regs.get 2)
    | _ => none
  let replayed : ReplayOutcome → Option UInt32
    | .verified _ vm => some (vm.state.regs.get 2)
    | _ => none
  let c : CheckpointState := ⟨0, 6, 0, ⟨#[7, 0, 0, 0, 0, 0, 0, 0], rfl⟩, 8, 0xFFFFC⟩
  have hsave : (cmdSave storeThenLoad [⟨3, 0x09, 5⟩] 0 true 3).bind written =
      some (checkpointSave c) := by
    decide +kernel
  have hload : (cmdRestore storeThenLoad [⟨3, 0x09, 5⟩] (checkpointSave c) 3).bind loaded =
      some 0 := by
    decide +kernel
  have hrep : (cmdReplay storeThenLoad [⟨3, 0x09, 5⟩] 5).bind replayed = some 7 := by
    decide +kernel
  -- the outcomes evaluated are those the definition speaks of, whatever its fuel
  obtain ⟨saved, hsaved, hfile⟩ := Option.bind_eq_some_iff.mp hsave
  obtain rfl := cmdSave_unique hsaved hs
  obtain rfl : file = checkpointSave c := Option.some.inj hfile
  obtain ⟨restored, hrestored, hzero⟩ := Option.bind_eq_some_iff.mp hload
  obtain rfl := cmdRestore_unique hrestored hr
  obtain ⟨verified, hverified, hseven⟩ := Option.bind_eq_some_iff.mp hrep
  obtain rfl := cmdReplay_unique hverified hp
  have hregs : some (vm₂.state.regs.get 2) = some 7 := by
    rw [hsame.regs]
    exact hseven
  exact absurd (hzero.symm.trans hregs) (by decide)

end RetroVM

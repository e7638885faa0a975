import RetroVM.Cli.Drivers
import RetroVM.Snapshot.DeltaLog

/-!
# What the `.snap` files tell (`main.cpp`, `cmd_snapshot`; `include/retrovm/vm.hpp`)

No command reads a `.snap` file. `SnapFile.read` reads one as `vm.hpp` lays it out. Of the files a
run of `cmd_snapshot` leaves, the `i`-th shows the machine of `cmd_run` where it is to run
instruction `i * k`, its flags apart; and the deltas of file `i` take the memory there back to where
instruction `(i - 1) * k` was to be run, those of the first file to the program as it was loaded.

Results:
* `read_snapshotFile`: what was written is read.
* `cycle_rolls`: what a turn does to the clock, the log and the firings, in one place.
* **`snapshot_files_tell_run`**, **`snapshot_files_rewind`**.
-/

namespace RetroVM

open UndoLog

/-! ## Reading a file -/

/-- What is in a `.snap` file. -/
structure SnapFile where
  cycleCount : UInt64
  halted     : UInt32
  regs       : Vector UInt32 8
  pc         : UInt32
  sp         : UInt32
  deltas     : List MemDelta

/-- The `MemDelta` at an offset of a file. -/
def deltaAt (file : List UInt8) (off : Nat) : MemDelta where
  runCount := file.getD off 0
  page     := file.getD (off + 1) 0
  offset   := (file.getD (off + 2) 0).toUInt16 ||| ((file.getD (off + 3) 0).toUInt16 <<< 8)
  oldValue := wordAt file (off + 4)

/-- A file, read by the layout of `SnapshotFileHeader`, `SnapshotFileRegs` and the delta list. -/
def SnapFile.read (file : List UInt8) : SnapFile where
  cycleCount := dwordAt file 16
  halted     := wordAt file 24
  regs       := Vector.ofFn fun i => wordAt file (32 + 4 * i.val)
  pc         := wordAt file 64
  sp         := wordAt file 68
  deltas     := (List.range (wordAt file 28).toNat).map fun j => deltaAt file (72 + 8 * j)

/-- The memory, taken back through files, the newest first. -/
def rewound (files : List (List UInt8)) (mem : Memory) : Memory :=
  unwind MemDelta.undo (fun file => (SnapFile.read file).deltas) files mem

section Read

/-- A 16-bit number is put together from its two bytes. -/
theorem halfword_parts (a : UInt16) :
    a.toUInt8.toUInt16 ||| ((a >>> 8).toUInt8.toUInt16 <<< 8) = a := by
  apply UInt16.toBitVec_inj.mp
  ext i hi
  simp [-UInt16.toUInt16_toUInt8]
  grind

theorem deltaAt_bytes (d : MemDelta) (rest : List UInt8) : deltaAt (d.bytes ++ rest) 0 = d := by
  obtain ⟨runCount, page, offset, oldValue⟩ := d
  have hoffset := halfword_parts offset
  have hold := word_bytes oldValue
  exact MemDelta.mk.injEq .. ▸ ⟨rfl, rfl, hoffset, hold⟩

theorem deltaAt_drop (file : List UInt8) (off k : Nat) :
    deltaAt (file.drop off) k = deltaAt file (off + k) := by
  unfold deltaAt
  simp only [wordAt_drop, List.getD_eq_getElem?_getD, List.getElem?_drop, Nat.add_assoc]

/-- The words written first are read back, whatever follows them. -/
theorem wordAt_words (ws : List UInt32) (rest : List UInt8) {i : Nat} (h : i < ws.length) :
    wordAt (ws.flatMap wordBytes ++ rest) (4 * i) = ws[i] := by
  rw [← Nat.add_zero (4 * i), ← wordAt_drop, List.drop_append_of_le_length
    (by rw [flatMap_wordBytes_length]; omega), Records.drop_flatMap wordBytes_length,
    List.drop_eq_getElem_cons h, List.flatMap_cons, List.append_assoc]
  exact wordAt_wordBytes _ _

theorem snapshotFile_cycle (s : Snapshot) : dwordAt (snapshotFile s) 16 = s.cycleCount := by
  have hlow : wordAt (snapshotFile s) 16 = s.cycleCount.toUInt32 := word_bytes _
  have hhigh : wordAt (snapshotFile s) (16 + 4) = (s.cycleCount >>> 32).toUInt32 := word_bytes _
  unfold dwordAt
  rw [hlow, hhigh, dword_halves]

/-- **What was written is read**, all but the flags, if the number of deltas fits its word. -/
theorem read_snapshotFile (s : Snapshot) (h : s.deltas.length < 2 ^ 32) :
    SnapFile.read (snapshotFile s) =
      ⟨s.cycleCount, s.halted.code, s.regs, s.pc, s.sp, s.deltas⟩ := by
  have hhalted : wordAt (snapshotFile s) 24 = s.halted.code := word_bytes s.halted.code
  have hcount : wordAt (snapshotFile s) 28 = UInt32.ofNat s.deltas.length := word_bytes _
  -- the register block is ten words
  have hblock : ∀ i (hi : i < (s.regs.toList ++ [s.pc, s.sp]).length),
      wordAt (snapshotFile s) (32 + 4 * i) = (s.regs.toList ++ [s.pc, s.sp])[i] := by
    intro i hi
    rw [← wordAt_words _ (s.deltas.flatMap MemDelta.bytes) hi, List.flatMap_append]
    exact wordAt_append (snapshotFileHeader s) _ (4 * i)
  have hregs : ∀ i : Fin 8, wordAt (snapshotFile s) (32 + 4 * i.val) = s.regs.get i := by
    intro i
    rw [hblock i.val (by simp; omega), List.getElem_append_left (by simp)]
    rfl
  have hpc : wordAt (snapshotFile s) 64 = s.pc := by
    rw [hblock 8 (by simp), List.getElem_append_right (by simp)]
    simp
  have hsp : wordAt (snapshotFile s) 68 = s.sp := by
    rw [hblock 9 (by simp), List.getElem_append_right (by simp)]
    simp
  have hdelta : ∀ j (hj : j < s.deltas.length), deltaAt (snapshotFile s) (72 + 8 * j) =
      s.deltas[j] := by
    intro j hj
    have hlist : (snapshotFile s).drop 72 = s.deltas.flatMap MemDelta.bytes := by
      unfold snapshotFile
      rw [← List.append_assoc]
      refine List.drop_left' ?_
      rw [List.length_append, snapshotFileRegs_length]
      rfl
    rw [← deltaAt_drop, hlist, ← Nat.add_zero (8 * j), ← deltaAt_drop,
      Records.drop_flatMap delta_bytes_length, List.drop_eq_getElem_cons hj, List.flatMap_cons]
    exact deltaAt_bytes _ _
  have hdeltas : (List.range (wordAt (snapshotFile s) 28).toNat).map
      (fun j => deltaAt (snapshotFile s) (72 + 8 * j)) = s.deltas := by
    rw [hcount, UInt32.toNat_ofNat_of_lt' h]
    refine List.ext_getElem (by simp) fun j hj hj' => ?_
    rw [List.getElem_map, List.getElem_range, hdelta j hj']
  unfold SnapFile.read
  rw [snapshotFile_cycle, hhalted, hpc, hsp, hdeltas]
  congr 1
  refine Vector.ext fun i hi => ?_
  rw [Vector.getElem_ofFn]
  exact hregs ⟨i, hi⟩

end Read

/-! ## One turn -/

section Turn

variable {ε : Type}

/-- A `STORE` adds one entry to the log at most. -/
theorem logStore_length (mem : Memory) (deltas : List MemDelta) (imm : UInt32) :
    (ComputedGoto.logStore mem deltas imm).length ≤ deltas.length + 1 := by
  unfold ComputedGoto.logStore
  cases deltas.getLast? with
  | none => simp
  | some back =>
    dsimp only
    split
    · simp
    · simp

/-- So does any instruction. -/
theorem retire_deltas (E : Env ε) (instr : UInt32) (m : Machine ε) :
    (landed (m.retire E instr)).vm.deltas.length ≤ m.vm.deltas.length + 1 := by
  unfold Machine.retire
  cases decode instr with
  | none => exact Nat.le_succ _
  | some i =>
    dsimp only
    cases i.effect m.mem m.state.cpu with
    | next c => exact Nat.le_succ _
    | write addr v => exact logStore_length _ _ _
    | ask q dst =>
      let d := m.dispatched instr
      let c := consult E.hooks q m.state.cycleCount m.env
      change (landed (d.receive dst c)).vm.deltas.length ≤ _
      rw [landed_receive, received_deltas]
      exact Nat.le_succ _
    | stop c r => exact Nat.le_succ _

/-- **What a turn does to the clock, the log and the firings**: the clock goes on and the log may
grow, or the sink gets the log and a new one is started. -/
theorem cycle_rolls {c0 : UInt64} {k : UInt32} {q r : Nat} {m : Machine ε} (h : Clock c0 k q r m)
    {E : Env ε} {sink : SnapshotSink ε} (hs : E.snapSink = some sink) :
    let m' := landed (m.cycle E)
    (Clock c0 k q (r + 1) m' ∧ firings m'.history = firings m.history ∧
      m'.vm.deltas.length ≤ m.vm.deltas.length + 1) ∨
    (r + 1 = k.toNat ∧ Clock c0 k (q + 1) 0 m' ∧ m'.vm.deltas.length ≤ 1 ∧
      ∃ vm, vm.mem = m.mem ∧
        firings m'.history = firings m.history ++ [⟨m.advance.vm.snapshot, vm, m.env⟩]) := by
  have hr := h.rest
  have hk : m.advance.state.snapInterval ≠ 0 := by
    change m.state.snapInterval ≠ 0
    rw [h.interval]
    rintro rfl
    exact absurd hr (Nat.not_lt_zero r)
  have hdue : m.advance.state.snapTimer = 1 → r + 1 = k.toNat := by
    intro ht
    have htimer := h.timer
    rw [show m.state.snapTimer = 1 from ht] at htimer
    change 1 = k.toNat - r at htimer
    omega
  have hempty : (m.advance.tick.fired E).vm.deltas = [] := (fired_frame E m.advance.tick).2.2.1
  have hfired : ∃ vm, vm.mem = m.mem ∧ firings (m.advance.tick.fired E).history =
      firings m.history ++ [⟨m.advance.vm.snapshot, vm, m.env⟩] := by
    rw [fired_of_sink hs, firings_append, firings_fire]
    exact ⟨m.advance.vm.drained, rfl, rfl⟩
  unfold Machine.cycle
  rcases snapTick_cases E m.advance with ⟨hi, -⟩ | ⟨-, ht, hx⟩ | ⟨-, ht, -, hx⟩ | ⟨-, ht, -, hx⟩
  · exact absurd hi hk
  · rw [hx]
    have hframe := retire_frame E m.fetched m.advance.tick
    exact .inl ⟨(h.tick ht).of_sameClock hframe, hframe.firings, retire_deltas E m.fetched _⟩
  · rw [hx]
    have hframe := retire_frame E m.fetched (m.advance.tick.fired E)
    have hlog := retire_deltas E m.fetched (m.advance.tick.fired E)
    rw [hempty] at hlog
    obtain ⟨vm, hmem, hfs⟩ := hfired
    exact .inr ⟨hdue ht, (h.fired ht hs).of_sameClock hframe, hlog, vm, hmem,
      hframe.firings.trans hfs⟩
  · rw [hx]
    have hlog : (m.advance.tick.fired E).vm.deltas.length ≤ 1 := by
      rw [hempty]
      exact Nat.zero_le 1
    exact .inr ⟨hdue ht, h.fired ht hs, hlog, hfired⟩

end Turn

/-! ## A run with a sink, beside the run without -/

section Rolling

variable {η ς : Type}

/-- The run without a sink where it is to run instruction `i * k`; at `0`, where it begins. -/
def instant (E : Env η) (k : UInt32) (k0 : Machine η) (i : Nat) : Except (Exit η) (Machine η) :=
  StepLoop.after (Machine.cycle E) (i * k.toNat - 1) k0

/-- What a firing shows of the machine that is to run the instruction. -/
structure Shows (f : Firing (η × ς)) (u : Machine η) : Prop where
  cycleCount : f.snapshot.cycleCount = u.state.cycleCount + 1
  regs       : f.snapshot.regs = u.state.regs
  pc         : f.snapshot.pc = u.state.pc + 4
  sp         : f.snapshot.sp = u.state.sp
  halted     : f.snapshot.halted = .running
  deltas     : f.snapshot.deltas.length < 2 ^ 32
  mem        : f.vm.mem = u.mem

/-- Firings that show the run without a sink, instant by instant. -/
structure Filmed (E : Env η) (k : UInt32) (k0 : Machine η) (base : Memory)
    (fs : List (Firing (η × ς))) : Prop where
  shows : ∀ i f, fs[i]? = some f → ∃ u, instant E k k0 (i + 1) = .ok u ∧ Shows f u
  first : ∀ f ∈ fs.head?, rollback MemDelta.undo f.snapshot.deltas f.vm.mem = base

/-- A watched run after `n` turns, beside the run without a sink. -/
structure Rolling (E : Env η) (k : UInt32) (k0 : Machine η) (base : Memory) (n : Nat)
    (m : Machine (η × ς)) : Prop where
  watched  : ∃ u, StepLoop.after (Machine.cycle E) n k0 = .ok u ∧ Watched m u
  clock    : ∃ q r, q * k.toNat + r = n ∧ Clock k0.state.cycleCount k q r m ∧
    m.vm.deltas.length ≤ r + 1
  undoable : Undoable base m
  filmed   : Filmed E k k0 base (firings m.history)

/-- One more firing. -/
theorem Filmed.snoc {E : Env η} {k : UInt32} {k0 : Machine η} {base : Memory}
    {fs : List (Firing (η × ς))} (h : Filmed E k k0 base fs) {f : Firing (η × ς)} {u : Machine η}
    (hu : instant E k k0 (fs.length + 1) = .ok u) (hf : Shows f u)
    (hfirst : fs = [] → rollback MemDelta.undo f.snapshot.deltas f.vm.mem = base) :
    Filmed E k k0 base (fs ++ [f]) where
  shows i g hg := by
    by_cases hi : i < fs.length
    · rw [List.getElem?_append_left hi] at hg
      exact h.shows i g hg
    · rw [List.getElem?_append_right (Nat.le_of_not_lt hi)] at hg
      rw [List.getElem?_singleton] at hg
      split at hg
      next hzero =>
        obtain rfl := Option.some.inj hg
        obtain rfl : i = fs.length := by omega
        exact ⟨u, hu, hf⟩
      next => cases hg
  first g hg := by
    cases fs with
    | nil =>
      obtain rfl := Option.some.inj hg
      exact hfirst rfl
    | cons f' fs => exact h.first g hg

/-- A firing shows the machine beside the one that fired. -/
theorem Watched.shows {m : Machine (η × ς)} {u : Machine η} (h : Watched m u) {vm : VM}
    (hmem : vm.mem = m.mem) (hlog : m.vm.deltas.length < 2 ^ 32) :
    Shows (⟨m.advance.vm.snapshot, vm, m.env⟩ : Firing (η × ς)) u := by
  obtain ⟨halike, hrun, -⟩ := h
  have hcpu := halike.cpu
  simp only [VMState.cpu, Cpu.mk.injEq] at hcpu
  exact ⟨congrArg (· + 1) halike.cycleCount, hcpu.1, congrArg (· + 4) hcpu.2.1, halike.sp, hrun,
    hlog, hmem.trans (funext fun a => halike.mem a (Set.notMem_empty a))⟩

variable {hooks : IOHooks η} {sink : Snapshot → VM → η → ς → ς} {mode : DispatchMode}
  {k : UInt32} {k0 : Machine η} {base : Memory} {n : Nat} {m : Machine (η × ς)}

variable (sink) in
/-- **A turn keeps them rolling**; the last one, too, shows what it should. -/
theorem Rolling.turn (h : Rolling ⟨hooks, none, mode⟩ k k0 base n m) :
    let m' := landed (m.cycle ⟨hooks.beside ς, some (watcher sink), mode⟩)
    Filmed ⟨hooks, none, mode⟩ k k0 base (firings m'.history) ∧ Undoable base m' ∧
      (firings m'.history).length = (n + 1) / k.toNat ∧
      ∀ u, m.cycle ⟨hooks.beside ς, some (watcher sink), mode⟩ = .ok u →
        Rolling ⟨hooks, none, mode⟩ k k0 base (n + 1) u := by
  intro m'
  obtain ⟨⟨u, hu, hwatched⟩, ⟨q, r, hn, hclock, hlog⟩, hundo, hfilmed⟩ := h
  have hundo' : Undoable base m' := cycle_undoable rfl hundo
  have hcount : ∀ {q r : Nat} {x : Machine (η × ς)}, Clock k0.state.cycleCount k q r x →
      (firings x.history).length = q := by
    intro q r x hx
    simpa using congrArg List.length hx.firings
  have hrest := hclock.rest
  obtain ⟨hfilmed', q', r', hn', hclock', hlog'⟩ : Filmed ⟨hooks, none, mode⟩ k k0 base
      (firings m'.history) ∧ ∃ q' r', q' * k.toNat + r' = n + 1 ∧
        Clock k0.state.cycleCount k q' r' m' ∧ m'.vm.deltas.length ≤ r' + 1 := by
    rcases cycle_rolls (E := ⟨hooks.beside ς, some (watcher sink), mode⟩) hclock rfl with
      ⟨hclock', hfs, hlog'⟩ | ⟨hdue, hclock', hlog', vm, hmem, hfs⟩
    · refine ⟨?_, q, r + 1, by omega, hclock', Nat.le_trans hlog' (Nat.succ_le_succ hlog)⟩
      rw [hfs]
      exact hfilmed
    · have hnow : (q + 1) * k.toNat = n + 1 := by
        rw [Nat.succ_mul]
        omega
      refine ⟨?_, q + 1, 0, hnow, hclock', hlog'⟩
      rw [hfs]
      have hlast : instant ⟨hooks, none, mode⟩ k k0 ((firings m.history).length + 1) = .ok u := by
        unfold instant
        rw [hcount hclock, hnow]
        exact hu
      refine hfilmed.snoc hlast (hwatched.shows hmem ?_) fun hnil => ?_
      · have hk := k.toNat_lt
        omega
      · have hpending := hundo.pending
        unfold memAtLastFiring at hpending
        rw [hnil] at hpending
        change rollback MemDelta.undo m.vm.deltas vm.mem = base
        rw [hmem]
        exact hpending
  have hlength : (firings m'.history).length = (n + 1) / k.toNat := by
    rw [hcount hclock', ← hn', Nat.mul_comm, Nat.mul_add_div (Nat.zero_lt_of_lt hclock'.rest),
      Nat.div_eq_of_lt hclock'.rest, Nat.add_zero]
  refine ⟨hfilmed', hundo', hlength, fun v hv => ?_⟩
  have hlanded : m' = v := congrArg landed hv
  have hmatch := watched_turn hooks sink mode hwatched
  rw [hv] at hmatch
  obtain ⟨u', hu', hwatched'⟩ := hmatch.of_ok
  rw [hlanded] at hfilmed' hundo' hclock' hlog'
  exact ⟨⟨u', (StepLoop.after_succ_right hu).trans hu', hwatched'⟩, ⟨q', r', hn', hclock', hlog'⟩,
    hundo', hfilmed'⟩

variable {m0 : Machine (η × ς)}

/-- A watched run keeps rolling as long as it goes on. -/
theorem rolling_after (h0 : Rolling ⟨hooks, none, mode⟩ k k0 base 0 m0)
    (hm : StepLoop.after (Machine.cycle ⟨hooks.beside ς, some (watcher sink), mode⟩) n m0 = .ok m) :
    Rolling ⟨hooks, none, mode⟩ k k0 base n m := by
  induction n generalizing m with
  | zero =>
    obtain rfl := Except.ok.inj hm
    exact h0
  | succ n ih =>
    obtain ⟨v, hv, hc⟩ := StepLoop.after_ok_pred hm
    obtain ⟨-, -, -, hnext⟩ := (ih hv).turn sink
    exact hnext m hc

variable (sink) in
/-- **What a watched run has shown once it is over**: every instant the other run came to. -/
theorem filmed_exit (h0 : Rolling ⟨hooks, none, mode⟩ k k0 base 0 m0) {x : Exit (η × ς)}
    (hx : StepLoop.after (Machine.cycle ⟨hooks.beside ς, some (watcher sink), mode⟩) n m0 =
      .error x) :
    Filmed ⟨hooks, none, mode⟩ k k0 base (firings x.machine.history) ∧
      (firings x.machine.history).IsChain LinkedFirings ∧
      ∀ i, (∃ u, instant ⟨hooks, none, mode⟩ k k0 (i + 1) = .ok u) ↔
        i < (firings x.machine.history).length := by
  obtain ⟨N, v, -, hv, hc⟩ := StepLoop.after_error_last hx
  have hroll := rolling_after h0 hv
  obtain ⟨hfilmed, hundo, hlength, -⟩ := hroll.turn sink
  obtain ⟨⟨u, hu, hwatched⟩, ⟨q, r, -, hclock, -⟩, -, -⟩ := hroll
  have hmatch := watched_turn hooks sink mode hwatched
  rw [hc] at hfilmed hundo hlength hmatch
  obtain ⟨y, hy, -⟩ := hmatch.of_error
  rw [← StepLoop.after_succ_right hu] at hy
  refine ⟨hfilmed, hundo.chain, fun i => ⟨fun ⟨u', hu'⟩ => ?_, fun hi => ?_⟩⟩
  · by_contra hlate
    -- the run was over before
    have hpast : N + 1 < (i + 1) * k.toNat := by
      rw [← Nat.div_lt_iff_lt_mul (Nat.zero_lt_of_lt hclock.rest)]
      exact Nat.lt_succ_of_le (hlength ▸ Nat.le_of_not_lt hlate)
    obtain ⟨d, hd⟩ := Nat.exists_eq_add_of_le (Nat.le_sub_one_of_lt hpast)
    unfold instant at hu'
    rw [hd, StepLoop.after_add_error hy d] at hu'
    cases hu'
  · obtain ⟨u', hu', -⟩ := hfilmed.shows i _ (List.getElem?_eq_getElem hi)
    exact ⟨u', hu'⟩

end Rolling

/-! ## The files of `cmd_snapshot` -/

/-- The machine of `cmd_run` where it is to run instruction `i * k`, if it comes to that; at `0`,
where it begins. -/
def runInstant (bytes : List UInt8) (stdin rng : Nat → UInt32) (k : UInt32) (i : Nat) :
    Option (Machine (Nat × Nat)) :=
  match VM.boot bytes with
  | none => none
  | some vm0 =>
    (StepLoop.after (turn (hostEnv stdin rng .computedGoto)) (i * k.toNat - 1)
      (.start vm0 (0, 0))).toOption

section Files

variable {bytes : List UInt8} {k : UInt32} {stdin rng : Nat → UInt32} {fuel : Nat}
  {r : HaltReason} {vm : VM} {files : List (List UInt8)}

theorem runInstant_eq {vm0 : VM} (hb : VM.boot bytes = some vm0) (i : Nat) :
    runInstant bytes stdin rng k i =
      (instant (hostEnv stdin rng .computedGoto) k (.start vm0 (0, 0)) i).toOption := by
  unfold runInstant instant
  rw [hb]
  simp only
  rw [after_turn_eq _ (boot_running hb).1]

/-- The run behind the files. -/
theorem cmdSnapshot_exit (h : cmdSnapshot bytes k stdin rng fuel = some (.halted r vm files)) :
    ∃ vm0 x, VM.boot bytes = some vm0 ∧ StepLoop.after (Machine.cycle (snapshotEnv stdin rng)) fuel
        (.start (vm0.setSnapshotInterval k) ((0, 0), [])) = .error x ∧
      files = (firings x.machine.history).map fun f => snapshotFile f.snapshot := by
  have hfiles := cmdSnapshot_files h
  cases hb : VM.boot bytes with
  | none =>
    unfold cmdSnapshot at h
    rw [hb] at h
    cases h
  | some vm0 =>
    have hrun := (boot_running hb).1
    unfold cmdSnapshot at h
    rw [hb] at h
    obtain ⟨x, hx, -⟩ := Option.map_eq_some_iff.mp h
    rw [StepLoop.exec_eq_some_iff] at hx
    unfold receivedSnapshots at hfiles
    rw [hb] at hfiles
    simp only [hx, landed_error, List.map_map] at hfiles
    rw [after_turn_eq _ (m := .start (vm0.setSnapshotInterval k) ((0, 0), [])) hrun] at hx
    exact ⟨vm0, x, rfl, hx, hfiles⟩

/-- The files are from cycles `k`, `2 * k` and so on. -/
theorem cmdSnapshot_cycles (hk : k ≠ 0)
    (h : cmdSnapshot bytes k stdin rng fuel = some (.halted r vm files)) {i : Nat}
    {file : List UInt8} (hi : files[i]? = some file) :
    dwordAt file 16 = UInt64.ofNat ((i + 1) * k.toNat) := by
  obtain ⟨vm0, x, hb, hx, rfl⟩ := cmdSnapshot_exit h
  obtain ⟨N, v, -, hv, hc⟩ := StepLoop.after_error_last hx
  obtain ⟨_, _, -, hclock⟩ := after_clock (clock_start vm0 hk _) rfl hv
  obtain ⟨q, _, -, hclock⟩ := cycle_clock hclock (E := snapshotEnv stdin rng) rfl
  rw [hc, landed_error] at hclock
  rw [List.getElem?_map] at hi
  obtain ⟨f, hf, rfl⟩ := Option.map_eq_some_iff.mp hi
  have hcycle := congrArg (·[i]?) hclock.firings
  simp only [List.getElem?_map, hf, Option.map_some] at hcycle
  obtain ⟨n, hn, hcycle⟩ := Option.map_eq_some_iff.mp hcycle.symm
  obtain ⟨hlt, rfl⟩ := List.getElem?_eq_some_iff.mp hn
  rw [List.getElem_range] at hcycle
  rw [snapshotFile_cycle, ← hcycle, boot_eq_some hb]
  exact UInt64.zero_add _

/-- The firings behind the files. -/
theorem cmdSnapshot_filmed (hk : k ≠ 0)
    (h : cmdSnapshot bytes k stdin rng fuel = some (.halted r vm files)) :
    ∃ vm0, VM.boot bytes = some vm0 ∧
      ∃ fs : List (Firing ((Nat × Nat) × List (List UInt8))),
        files = fs.map (fun f => snapshotFile f.snapshot) ∧
        Filmed (hostEnv stdin rng .computedGoto) k (.start vm0 (0, 0)) vm0.mem fs ∧
        fs.IsChain LinkedFirings ∧
        ∀ i, (∃ u, instant (hostEnv stdin rng .computedGoto) k (.start vm0 (0, 0)) (i + 1) =
          .ok u) ↔ i < fs.length := by
  obtain ⟨vm0, x, hb, hx, hfiles⟩ := cmdSnapshot_exit h
  have h0 : Rolling (hostEnv stdin rng .computedGoto) k (.start vm0 (0, 0)) vm0.mem 0
      (.start (vm0.setSnapshotInterval k) ((0, 0), ([] : List (List UInt8)))) := by
    refine ⟨⟨_, rfl, ⟨rfl, rfl, rfl, rfl, fun _ _ => rfl, rfl, rfl⟩, boot_running hb⟩,
      ⟨0, 0, by omega, clock_start vm0 hk _, ?_⟩, ⟨?_, List.isChain_nil⟩,
      fun i f hf => (by cases hf), fun f hf => (by cases hf)⟩
    · rw [boot_eq_some hb]
      exact Nat.zero_le 1
    · change rollback _ vm0.deltas vm0.mem = vm0.mem
      rw [boot_eq_some hb]
      rfl
  obtain ⟨hfilmed, hchain, hall⟩ := filmed_exit
    (fun s _ _ files => files ++ [snapshotFile s]) h0 hx
  exact ⟨vm0, hb, _, hfiles, hfilmed, hchain, hall⟩

/-- Files are undone as the firings they were written in. -/
theorem rewound_map {ε : Type} {fs : List (Firing ε)}
    (h : ∀ f ∈ fs, f.snapshot.deltas.length < 2 ^ 32) (mem : Memory) :
    rewound (fs.map fun f => snapshotFile f.snapshot) mem =
      unwind MemDelta.undo (fun f : Firing ε => f.snapshot.deltas) fs mem := by
  induction fs with
  | nil => rfl
  | cons f fs ih =>
    obtain ⟨hf, hfs⟩ := List.forall_mem_cons.mp h
    change rollback _ (SnapFile.read (snapshotFile f.snapshot)).deltas (rewound _ mem) = _
    rw [ih hfs, read_snapshotFile _ hf]
    rfl

/-- The memory at the instants, and the logs between them. -/
theorem Filmed.rewinds {η ς : Type} {E : Env η} {k : UInt32} {k0 : Machine η} {base : Memory}
    {fs : List (Firing (η × ς))} (hfilmed : Filmed E k k0 base fs)
    (hchain : fs.IsChain LinkedFirings) (hbase : k0.mem = base) {i j : Nat} (hij : i ≤ j)
    (hj : j ≤ fs.length) :
    ∃ u u', instant E k k0 i = .ok u ∧ instant E k k0 j = .ok u' ∧
      rewound (((fs.map fun f => snapshotFile f.snapshot).take j).drop i) u'.mem = u.mem := by
  have hat : ∀ n ≤ fs.length, ∃ u, instant E k k0 n = .ok u ∧
      stateAt (fun f : Firing (η × ς) => f.vm.mem) base fs n = u.mem := by
    intro n hn
    cases n with
    | zero => exact ⟨k0, by rw [instant, Nat.zero_mul]; rfl, hbase.symm⟩
    | succ n =>
      have hf := List.getElem?_eq_getElem hn
      obtain ⟨u, hu, hshows⟩ := hfilmed.shows n _ hf
      refine ⟨u, hu, ?_⟩
      rw [← hshows.mem]
      change (fs[n]?.map _).getD _ = _
      rw [hf]
      rfl
  obtain ⟨u, hu, hmem⟩ := hat i (Nat.le_trans hij hj)
  obtain ⟨u', hu', hmem'⟩ := hat j hj
  refine ⟨u, u', hu, hu', ?_⟩
  have hfits : ∀ f ∈ (fs.take j).drop i, f.snapshot.deltas.length < 2 ^ 32 := by
    intro f hf
    obtain ⟨n, hn⟩ := List.mem_iff_getElem?.mp (List.mem_of_mem_take (List.mem_of_mem_drop hf))
    obtain ⟨v, -, hshows⟩ := hfilmed.shows n f hn
    exact hshows.deltas
  rw [← hmem, ← hmem', ← List.map_take, ← List.map_drop, rewound_map hfits]
  exact unwind_chain_stateAt MemDelta.undo _ _ hchain hfilmed.first hij hj

end Files

/-- The files a run left, if it halted. -/
def SnapshotOutcome.files : SnapshotOutcome → Option (List (List UInt8))
  | .halted _ _ files => some files
  | .tooLarge | .uncaught _ => none

theorem halted_of_files {bytes : List UInt8} {k : UInt32} {stdin rng : Nat → UInt32} {fuel : Nat}
    {files : List (List UInt8)}
    (h : (cmdSnapshot bytes k stdin rng fuel).bind SnapshotOutcome.files = some files) :
    ∃ r vm, cmdSnapshot bytes k stdin rng fuel = some (.halted r vm files) := by
  obtain ⟨out, hout, hf⟩ := Option.bind_eq_some_iff.mp h
  cases out with
  | halted r vm files' =>
    cases hf
    exact ⟨r, vm, hout⟩
  | _ => cases hf

/-- **The files tell the run, instant by instant.** Whatever the program, the interval and what is
read, a `cmd_snapshot` that halts leaves a file for every instant `cmd_run` comes to, and no other;
in it are the registers, pc and sp it has there, in the cycle that has just begun, pc moved on. -/
theorem snapshot_files_tell_run (bytes : List UInt8) (k : UInt32) (hk : k ≠ 0)
    (stdin rng : Nat → UInt32) (fuel : Nat) (r : HaltReason) (vm : VM) (files : List (List UInt8))
    (h : cmdSnapshot bytes k stdin rng fuel = some (.halted r vm files)) :
    (∀ i, (runInstant bytes stdin rng k (i + 1)).isSome ↔ i < files.length) ∧
      ∀ (i : Nat) (file : List UInt8), files[i]? = some file →
        ∃ u deltas, runInstant bytes stdin rng k (i + 1) = some u ∧ SnapFile.read file =
          ⟨u.state.cycleCount + 1, 0, u.state.regs, u.state.pc + 4, u.state.sp, deltas⟩ := by
  obtain ⟨vm0, hb, fs, rfl, hfilmed, -, hall⟩ := cmdSnapshot_filmed hk h
  simp only [runInstant_eq hb]
  refine ⟨fun i => ?_, fun i file hfile => ?_⟩
  · rw [List.length_map, ← hall i]
    cases instant (hostEnv stdin rng .computedGoto) k (.start vm0 (0, 0)) (i + 1) with
    | ok u => simp [Except.toOption]
    | error x => simp [Except.toOption]
  · rw [List.getElem?_map] at hfile
    obtain ⟨f, hf, rfl⟩ := Option.map_eq_some_iff.mp hfile
    obtain ⟨u, hu, hshows⟩ := hfilmed.shows i f hf
    refine ⟨u, f.snapshot.deltas, by rw [hu]; rfl, ?_⟩
    rw [read_snapshotFile _ hshows.deltas, hshows.cycleCount, hshows.halted, hshows.regs,
      hshows.pc, hshows.sp]
    rfl

/-- `LI R0, 7; STORE R0, 0x100; STORE R0, 0x101; HALT`: two files, an instruction apart. -/
theorem snapshot_files_tell_run_stores :
    ∃ files : List (List UInt8), files.length = 2 ∧ ∀ i file, files[i]? = some file →
      ∃ u deltas, runInstant (imageOf [encode 0x0B 0 0 7, encode 0x02 0 0 0x100,
          encode 0x02 0 0 0x101, 0]) (fun _ => 0) (fun _ => 0) 2 (i + 1) = some u ∧
        SnapFile.read file =
          ⟨u.state.cycleCount + 1, 0, u.state.regs, u.state.pc + 4, u.state.sp, deltas⟩ := by
  let bytes := imageOf [encode 0x0B 0 0 7, encode 0x02 0 0 0x100, encode 0x02 0 0 0x101, 0]
  have htwo : ((cmdSnapshot bytes 2 (fun _ => 0) (fun _ => 0) 4).bind
      SnapshotOutcome.files).map List.length = some 2 := by
    decide +kernel
  obtain ⟨files, hfiles, hlength⟩ := Option.map_eq_some_iff.mp htwo
  obtain ⟨r, vm, hrun⟩ := halted_of_files hfiles
  exact ⟨files, hlength,
    (snapshot_files_tell_run bytes 2 (by decide) _ _ 4 r vm files hrun).2⟩

/-- **The files rewind the run.** The deltas of the files between two instants, undone on the memory
`cmd_run` has at the later one, give the memory it has at the earlier one; all files up to an
instant give the memory the program was loaded into. -/
theorem snapshot_files_rewind (bytes : List UInt8) (k : UInt32) (hk : k ≠ 0)
    (stdin rng : Nat → UInt32) (fuel : Nat) (r : HaltReason) (vm : VM) (files : List (List UInt8))
    (h : cmdSnapshot bytes k stdin rng fuel = some (.halted r vm files)) (i j : Nat) (hij : i ≤ j)
    (hj : j ≤ files.length) :
    ∃ u u', runInstant bytes stdin rng k i = some u ∧ runInstant bytes stdin rng k j = some u' ∧
      rewound ((files.take j).drop i) u'.mem = u.mem := by
  obtain ⟨vm0, hb, fs, rfl, hfilmed, hchain, -⟩ := cmdSnapshot_filmed hk h
  rw [List.length_map] at hj
  obtain ⟨u, u', hu, hu', hmem⟩ := hfilmed.rewinds hchain rfl hij hj
  rw [runInstant_eq hb, runInstant_eq hb, hu, hu']
  exact ⟨u, u', rfl, rfl, hmem⟩

/-- Both stores of the program are rewound. -/
theorem snapshot_files_rewind_stores :
    ∃ (files : List (List UInt8)) (u u' : Machine (Nat × Nat)),
      rewound ((files.take 4).drop 2) u'.mem = u.mem ∧ u.mem 0x101 = 0 ∧ u'.mem 0x101 = 7 := by
  let bytes := imageOf [encode 0x0B 0 0 7, encode 0x02 0 0 0x100, encode 0x02 0 0 0x101, 0]
  have hfour : ((cmdSnapshot bytes 1 (fun _ => 0) (fun _ => 0) 4).bind
      SnapshotOutcome.files).map List.length = some 4 := by
    decide +kernel
  have hearly : (runInstant bytes (fun _ => 0) (fun _ => 0) 1 2).map (·.mem 0x101) = some 0 := by
    decide +kernel
  have hlate : (runInstant bytes (fun _ => 0) (fun _ => 0) 1 4).map (·.mem 0x101) = some 7 := by
    decide +kernel
  obtain ⟨files, hfiles, hlength⟩ := Option.map_eq_some_iff.mp hfour
  obtain ⟨r, vm, hrun⟩ := halted_of_files hfiles
  obtain ⟨u, u', hu, hu', hmem⟩ := snapshot_files_rewind bytes 1 (by decide) _ _ 4 r vm files hrun
    2 4 (by decide) (Nat.le_of_eq hlength.symm)
  rw [hu] at hearly
  rw [hu'] at hlate
  exact ⟨files, u, u', hmem, Option.some.inj hearly, Option.some.inj hlate⟩

end RetroVM

import RetroVM.Debug.Repl

/-!
# Rewind benchmarks (`main.cpp`, `cmd_benchmark_backn`, `cmd_benchmark_back_sweep`)

Both benchmarks run a VM to its end with a sink that pushes every snapshot onto a ring, and then go
back and forth on the ring: `do_back` undoes deltas and restores a snapshot, `do_step` runs on to a
step boundary. They share the sink, `undo_deltas`, `restore_state` and `do_step`, written out here
once; each has a `do_back` of its own.

The ring starts empty. The first push resizes it to one slot, so its slot 0 is a value-initialised
snapshot, which no VM was ever in, until the ring evicts it.

Results:
* `Locals.history_push`, `Locals.push_index`: what a push does to the ring.
* `Remembers.turn`, `Remembers.run`: a run keeps ring, timeline and pending log together.
* **`Remembers.restores`**, `Remembers.rewound`: going back to a slot that holds a snapshot puts the
  VM to where it was taken, if nothing is pending or what is pending is about bytes put back.
-/

namespace RetroVM

namespace Bench

open HistoryRing UndoLog

variable {η : Type}

/-- A value-initialised `Snapshot`, with which `resize` fills. -/
instance : Inhabited Snapshot := ⟨⟨0, Vector.replicate 8 0, 0, 0, 0, .running, []⟩⟩

/-- `kBenchRingCap`. -/
def kBenchRingCap : Nat := 256

/-- The locals the sink captures. -/
structure Locals where
  ring         : List Snapshot := []
  historyIndex : Nat := 0
  targetCycle  : UInt64 := uint64Max

/-- A benchmark's VM, over hooks with state `η`. -/
abbrev BenchVM (η : Type) := Machine (η × Locals)

/-- A snapshot taken: the VM and the closures then. -/
abbrev Moment (η : Type) := Firing (η × Locals)

/-- `std::deque::resize`. -/
def resize (ring : List Snapshot) (n : Nat) : List Snapshot :=
  ring.take n ++ List.replicate (n - ring.length) default

/-- Push a snapshot onto the ring. -/
def Locals.push (d : Locals) (s : Snapshot) : Locals :=
  let ring := resize d.ring (d.historyIndex + 1) ++ [s]
  if ring.length > kBenchRingCap then { d with ring := ring.tail }
  else { d with ring, historyIndex := d.historyIndex + 1 }

/-- The sink. -/
def sink : SnapshotSink (η × Locals) := fun s _ (e, d) =>
  if d.targetCycle ≠ uint64Max ∧ s.cycleCount ≥ d.targetCycle then
    (some .step, (e, { d with targetCycle := uint64Max }.push s))
  else (none, (e, d.push s))

/-- What is wired to the VM. -/
def env (hooks : IOHooks η) : Env (η × Locals) := ⟨hooks.beside Locals, some sink, .computedGoto⟩

/-- The VM before its first run: `none` for a program that exceeds `MEM_SIZE`. -/
def start (bytes : List UInt8) (interval : UInt32) (e : η) : Option (BenchVM η) :=
  (VM.boot bytes).map fun vm => .start (vm.setSnapshotInterval interval) (e, {})

/-- An assignment to the locals. -/
def setLocals (m : BenchVM η) (d : Locals) : BenchVM η := { m with env := (m.env.1, d) }

/-- `undo_deltas`. -/
def undoDeltas (lo hi : Nat) (m : BenchVM η) : BenchVM η :=
  { m with vm := m.vm.unwind ((m.env.2.ring.take (hi + 1)).drop (lo + 1)) }

/-- `restore_state`; `none` reads past the end of the ring. -/
def restoreState (idx : Nat) (m : BenchVM η) : Option (BenchVM η) :=
  m.env.2.ring[idx]?.map fun tgt => m.setState { m.state with
    cycleCount := tgt.cycleCount
    regs := tgt.regs
    pc := tgt.pc
    sp := tgt.sp
    flags := tgt.flags
    halted := tgt.halted }

/-- What `do_back` does once it has its target. -/
def rewindTo (tgt : Nat) (m : BenchVM η) : Option (BenchVM η) :=
  (restoreState tgt (undoDeltas tgt m.env.2.historyIndex m)).map fun m =>
    setLocals m { m.env.2 with historyIndex := tgt }

/-- `vm.run()`: `none` is a run the fuel did not see the end of, or that an exception left. -/
def run (hooks : IOHooks η) (fuel : Nat) (m : BenchVM η) : Option (HaltReason × BenchVM η) :=
  (StepLoop.exec (turn (env hooks)) fuel m).bind fun x =>
    match x.stop with
    | .returned r => some (r, x.machine)
    | .threw _ => none

/-- `do_step` up to its `vm.run()`. -/
def toStep (depth : UInt64) (m : BenchVM η) : BenchVM η :=
  let m := m.setHalted .running
  setLocals m { m.env.2 with targetCycle := m.state.cycleCount + depth }

/-- `do_step`. -/
def doStep (hooks : IOHooks η) (fuel : Nat) (depth : UInt64) (m : BenchVM η) : Option (BenchVM η) :=
  (run hooks fuel (toStep depth m)).map Prod.snd

/-- `n` rounds of `do_back` and `do_step`. -/
def rounds (doBack doStep : BenchVM η → Option (BenchVM η)) : Nat → BenchVM η → Option (BenchVM η)
  | 0, m => some m
  | n + 1, m => ((doBack m).bind doStep).bind (rounds doBack doStep n)

/-! ## The ring -/

/-- What the ring remembers, the filler of a first push in it already. -/
def Locals.history (d : Locals) : History Snapshot :=
  ⟨resize d.ring (d.historyIndex + 1), d.historyIndex⟩

theorem resize_length (ring : List Snapshot) (n : Nat) : (resize ring n).length = n := by
  unfold resize
  rw [List.length_append, List.length_take, List.length_replicate]
  omega

theorem resize_eq_take {ring : List Snapshot} {n : Nat} (h : n ≤ ring.length) :
    resize ring n = ring.take n := by
  unfold resize
  rw [Nat.sub_eq_zero_of_le h, List.replicate_zero, List.append_nil]

/-- A push, the length of the ring worked out. -/
theorem push_eq (d : Locals) (s : Snapshot) :
    d.push s =
      if 255 ≤ d.historyIndex then
        { d with ring := (resize d.ring (d.historyIndex + 1) ++ [s]).tail }
      else
        { d with
          ring := resize d.ring (d.historyIndex + 1) ++ [s]
          historyIndex := d.historyIndex + 1 } := by
  have hlen : (resize d.ring (d.historyIndex + 1) ++ [s]).length = d.historyIndex + 2 := by
    rw [List.length_append, resize_length, List.length_singleton]
  unfold Locals.push
  simp only [hlen, kBenchRingCap]
  by_cases hfull : 255 ≤ d.historyIndex
  · rw [if_pos (by omega), if_pos hfull]
  · rw [if_neg (by omega), if_neg hfull]

/-- A push leaves the index inside the ring. -/
theorem push_inside (d : Locals) (s : Snapshot) :
    (d.push s).historyIndex < (d.push s).ring.length := by
  rw [push_eq]
  split
  · simp [resize_length]
  · simp [resize_length]

/-- The index stops at the end of the ring. -/
theorem push_index {d : Locals} (h : d.historyIndex ≤ 255) (s : Snapshot) :
    (d.push s).historyIndex = min 255 (d.historyIndex + 1) := by
  rw [push_eq]
  split
  · next hfull =>
    change d.historyIndex = _
    omega
  · next hfull =>
    change d.historyIndex + 1 = _
    omega

@[simp] theorem push_targetCycle (d : Locals) (s : Snapshot) :
    (d.push s).targetCycle = d.targetCycle := by
  rw [push_eq]
  split <;> rfl

/-- A push drops the slots past the index, and the oldest one of a full ring. -/
theorem history_push (d : Locals) (s : Snapshot) :
    (d.push s).history = d.history.push kBenchRingCap s := by
  have htake : d.history.slots.take (d.history.index + 1) = resize d.ring (d.historyIndex + 1) :=
    List.take_of_length_le (by rw [Locals.history, resize_length])
  have hlen : (resize d.ring (d.historyIndex + 1) ++ [s]).length = d.historyIndex + 2 := by
    rw [List.length_append, resize_length, List.length_singleton]
  -- a push leaves nothing past the index
  have hkept : ∀ ring : List Snapshot, resize ring ring.length = ring := fun ring => by
    rw [resize_eq_take (Nat.le_refl _), List.take_length]
  unfold History.push
  simp only [htake, hlen, kBenchRingCap]
  rw [push_eq]
  by_cases hfull : 255 ≤ d.historyIndex
  · rw [if_pos hfull, if_pos (by omega)]
    have h := hkept (resize d.ring (d.historyIndex + 1) ++ [s]).tail
    rw [List.length_tail, hlen] at h
    exact congrArg (fun ring => (⟨ring, d.historyIndex⟩ : History Snapshot)) h
  · rw [if_neg hfull, if_neg (by omega)]
    have h := hkept (resize d.ring (d.historyIndex + 1) ++ [s])
    rw [hlen] at h
    exact congrArg (fun ring => (⟨ring, d.historyIndex + 1⟩ : History Snapshot)) h

/-! ## The sink -/

/-- The soft halt the sink asks for in `cycle`. -/
def Locals.pause (d : Locals) (cycle : UInt64) : Option HaltReason :=
  if d.targetCycle ≠ uint64Max ∧ cycle ≥ d.targetCycle then some .step else none

/-- The step boundary, switched off once it is hit. -/
def Locals.settle (d : Locals) (cycle : UInt64) : Locals :=
  if d.targetCycle ≠ uint64Max ∧ cycle ≥ d.targetCycle then { d with targetCycle := uint64Max }
  else d

theorem sink_eq (s : Snapshot) (vm : VM) (e : η × Locals) :
    sink s vm e = (e.2.pause s.cycleCount, (e.1, (e.2.settle s.cycleCount).push s)) := by
  unfold sink Locals.pause Locals.settle
  by_cases ht : e.2.targetCycle ≠ uint64Max ∧ s.cycleCount ≥ e.2.targetCycle
  · simp only [if_pos ht]
  · simp only [if_neg ht]

theorem settle_ring (d : Locals) (cycle : UInt64) :
    (d.settle cycle).ring = d.ring ∧ (d.settle cycle).historyIndex = d.historyIndex := by
  unfold Locals.settle
  split <;> exact ⟨rfl, rfl⟩

/-- The snapshot the next fetch of `m` fires, if it fires. -/
def firing (m : BenchVM η) : Moment η := ⟨m.advance.vm.snapshot, m.advance.vm.drained, m.env⟩

/-! ## Ring, timeline and pending log -/

/-- The stack pointer of a booted VM, which no instruction moves. -/
def stackTop : UInt32 := UInt32.ofNat (memSize - 4)

/-- The ring remembers the snapshots of `timeline`, behind the filler, the delta logs of which are a
chain the pending log goes on with. -/
structure Remembers (timeline : List (Moment η)) (m : BenchVM η) : Prop where
  holds   : Holds kBenchRingCap m.env.2.history (default :: timeline.map (·.snapshot))
  inside  : timeline ≠ [] → m.env.2.historyIndex < m.env.2.ring.length
  chain   : timeline.IsChain LinkedFirings
  genuine : ∀ f ∈ timeline, f.snapshot = { f.vm.snapshot with deltas := f.snapshot.deltas }
  past    : ∀ f ∈ timeline, f ∈ firings m.history
  stack   : m.state.sp = stackTop ∧ ∀ f ∈ firings m.history, f.snapshot.sp = stackTop
  latest  : ∀ f, timeline.getLast? = some f →
    rollback MemDelta.undo m.vm.deltas m.mem = f.vm.mem

section Remembers

variable {timeline : List (Moment η)} {m m' : BenchVM η}

theorem Remembers.index_le (h : Remembers timeline m) : m.env.2.historyIndex ≤ 255 := by
  have hinside := h.holds.inside
  have hbounded := h.holds.bounded
  unfold Locals.history kBenchRingCap at *
  simp only at hinside hbounded
  omega

/-- What a machine remembers is kept by steps that neither fire nor move the pending log. -/
theorem Remembers.congr (h : Remembers timeline m) (hring : m'.env.2.ring = m.env.2.ring)
    (hindex : m'.env.2.historyIndex = m.env.2.historyIndex)
    (hfire : firings m'.history = firings m.history)
    (hroll : rollback MemDelta.undo m'.vm.deltas m'.mem = rollback MemDelta.undo m.vm.deltas m.mem)
    (hsp : m'.state.sp = m.state.sp) : Remembers timeline m' where
  holds := by
    have hsame : m'.env.2.history = m.env.2.history := by
      unfold Locals.history
      rw [hring, hindex]
    rw [hsame]
    exact h.holds
  inside := by
    rw [hring, hindex]
    exact h.inside
  chain := h.chain
  genuine := h.genuine
  past := by
    rw [hfire]
    exact h.past
  stack := by
    rw [hfire, hsp]
    exact h.stack
  latest := by
    rw [hroll]
    exact h.latest

/-- Dispatching keeps what is remembered. -/
theorem Remembers.retired (h : Remembers timeline m) (hooks : IOHooks η) (instr : UInt32) :
    Remembers timeline (landed (m.retire (env hooks) instr)) := by
  have henv : (landed (m.retire (env hooks) instr)).env.2 = m.env.2 :=
    retire_beside hooks _ _ instr m
  exact h.congr (congrArg Locals.ring henv) (congrArg Locals.historyIndex henv)
    (retire_frame (env hooks) instr m).firings (retire_rollback (env hooks) instr m)
    (retire_frame (env hooks) instr m).sp

/-- The locals once a run has gone through a fetch that fires. -/
theorem Remembers.fired (h : Remembers timeline m) {f : Moment η} {d : Locals}
    (hring : d.ring = m.env.2.ring) (hindex : d.historyIndex = m.env.2.historyIndex)
    (hd : m'.env.2 = d.push f.snapshot) (hf : firings m'.history = firings m.history ++ [f])
    (hgenuine : f.snapshot = { f.vm.snapshot with deltas := m.vm.deltas })
    (hmem : f.vm.mem = m.mem) (hsp : f.snapshot.sp = m.state.sp) (hdrained : m'.vm.deltas = [])
    (hmem' : m'.mem = m.mem) (hsp' : m'.state.sp = m.state.sp) :
    Remembers (timeline ++ [f]) m' := by
  have hsame : d.history = m.env.2.history := by
    unfold Locals.history
    rw [hring, hindex]
  have hlog : f.snapshot.deltas = m.vm.deltas := by rw [hgenuine]
  refine ⟨?_, fun _ => ?_, ?_, ?_, ?_, ⟨?_, ?_⟩, ?_⟩
  · rw [hd, history_push, hsame, List.map_append]
    exact h.holds.push f.snapshot
  · rw [hd]
    exact push_inside d f.snapshot
  · refine List.isChain_append.mpr ⟨h.chain, List.isChain_singleton _, ?_⟩
    intro a ha b hb
    cases hb
    have hroll := h.latest a ha
    change rollback MemDelta.undo f.snapshot.deltas f.vm.mem = a.vm.mem
    rw [hlog, hmem]
    exact hroll
  · intro g hg
    rcases List.mem_append.mp hg with hg | hg
    · exact h.genuine g hg
    · obtain rfl := List.mem_singleton.mp hg
      rw [hlog]
      exact hgenuine
  · intro g hg
    rw [hf]
    rcases List.mem_append.mp hg with hg | hg
    · exact List.mem_append_left _ (h.past g hg)
    · exact List.mem_append_right _ hg
  · exact hsp'.trans h.stack.1
  · intro g hg
    rw [hf] at hg
    rcases List.mem_append.mp hg with hg | hg
    · exact h.stack.2 g hg
    · rw [List.mem_singleton.mp hg, hsp]
      exact h.stack.1
  · intro g hg
    obtain rfl : f = g := Option.some.inj (List.getLast?_concat.symm.trans hg)
    rw [hdrained, hmem', hmem]
    rfl

/-- From `m` to `m'` the snapshots `new` were fired, and the ring remembers them. -/
structure Follows (timeline new : List (Moment η)) (m m' : BenchVM η) : Prop where
  fires     : firings m'.history = firings m.history ++ new
  remembers : Remembers (timeline ++ new) m'
  index     : m'.env.2.historyIndex = min 255 (m.env.2.historyIndex + new.length)

theorem Follows.refl (h : Remembers timeline m) : Follows timeline [] m m where
  fires := (List.append_nil _).symm
  remembers := by rwa [List.append_nil]
  index := (Nat.min_eq_right h.index_le).symm

theorem Follows.trans {new new' : List (Moment η)} {m'' : BenchVM η}
    (h : Follows timeline new m m') (h' : Follows (timeline ++ new) new' m' m'') :
    Follows timeline (new ++ new') m m'' where
  fires := by rw [h'.fires, h.fires, List.append_assoc]
  remembers := by
    rw [← List.append_assoc]
    exact h'.remembers
  index := by
    rw [h'.index, h.index, List.length_append]
    omega

/-- Dispatching fires nothing. -/
theorem Follows.retired {new : List (Moment η)} (h : Follows timeline new m m')
    (hooks : IOHooks η) (instr : UInt32) :
    Follows timeline new m (landed (m'.retire (env hooks) instr)) where
  fires := (retire_frame (env hooks) instr m').firings.trans h.fires
  remembers := h.remembers.retired hooks instr
  index := by
    have henv : (landed (m'.retire (env hooks) instr)).env.2 = m'.env.2 :=
      retire_beside hooks _ _ instr m'
    rw [henv]
    exact h.index

/-- What firing the sink on a fetch comes to. -/
theorem fired_fetch (hooks : IOHooks η) (m : BenchVM η) :
    (m.advance.tick.fired (env hooks)).env.2 =
      (m.env.2.settle (m.state.cycleCount + 1)).push (firing m).snapshot ∧
    (m.advance.tick.fired (env hooks)).state.halted =
      (m.env.2.pause (m.state.cycleCount + 1)).getD m.state.halted ∧
    firings (m.advance.tick.fired (env hooks)).history = firings m.history ++ [firing m] := by
  have hsink := sink_eq m.advance.tick.vm.snapshot { m.advance.tick.vm with deltas := [] }
    m.advance.tick.env
  rw [fired_of_sink (show (env hooks).snapSink = some sink from rfl)]
  refine ⟨congrArg (fun x => x.2.2) hsink, congrArg (fun x => x.1.getD m.state.halted) hsink, ?_⟩
  rw [firings_append, firings_fire]
  rfl

/-- A fetch that fires. -/
theorem Remembers.follows_fired (h : Remembers timeline m) (hooks : IOHooks η) :
    Follows timeline [firing m] m (m.advance.tick.fired (env hooks)) := by
  have hring := settle_ring m.env.2 (m.state.cycleCount + 1)
  obtain ⟨henv, -, hfires⟩ := fired_fetch hooks m
  obtain ⟨hstate, hmem, hdeltas, -⟩ := fired_frame (env hooks) m.advance.tick
  refine ⟨hfires, ?_, ?_⟩
  · refine h.fired hring.1 hring.2 henv hfires rfl rfl rfl hdeltas hmem ?_
    rw [hstate]
    rfl
  · rw [henv, push_index (by rw [hring.2]; exact h.index_le), hring.2, List.length_singleton]

/-- **One turn of a run.** It fires once or not at all. -/
theorem Remembers.turn (h : Remembers timeline m) (hooks : IOHooks η) :
    ∃ new, Follows timeline new m (landed (m.cycle (env hooks))) := by
  have hquiet : ∀ u : BenchVM η, u.env = m.env → u.history = m.history →
      u.vm.deltas = m.vm.deltas → u.mem = m.mem → u.state.sp = m.state.sp →
      Follows timeline [] m u := by
    intro u henv hhistory hdeltas hmem hsp
    have hfire : firings u.history = firings m.history := by rw [hhistory]
    refine ⟨by rw [hfire, List.append_nil], ?_, ?_⟩
    · rw [List.append_nil]
      exact h.congr (by rw [henv]) (by rw [henv]) hfire (by rw [hdeltas, hmem]) hsp
    · rw [henv]
      exact (Nat.min_eq_right h.index_le).symm
  unfold Machine.cycle
  rcases snapTick_cases (env hooks) m.advance with
    ⟨-, ht⟩ | ⟨-, -, ht⟩ | ⟨-, -, -, ht⟩ | ⟨-, -, -, ht⟩
  · rw [ht]
    exact ⟨[], (hquiet m.advance rfl rfl rfl rfl rfl).retired hooks _⟩
  · rw [ht]
    exact ⟨[], (hquiet m.advance.tick rfl rfl rfl rfl rfl).retired hooks _⟩
  · rw [ht]
    exact ⟨[firing m], (h.follows_fired hooks).retired hooks _⟩
  · rw [ht]
    exact ⟨[firing m], h.follows_fired hooks⟩

/-- Any number of turns. -/
theorem Remembers.after (h : Remembers timeline m) (hooks : IOHooks η) (n : Nat) :
    ∃ new, Follows timeline new m (landed (StepLoop.after (Machine.cycle (env hooks)) n m)) := by
  induction n generalizing m timeline with
  | zero => exact ⟨[], .refl h⟩
  | succ n ih =>
    obtain ⟨new, hnew⟩ := h.turn hooks
    cases hc : m.cycle (env hooks) with
    | error x =>
      rw [StepLoop.after_succ_error hc]
      rw [hc] at hnew
      exact ⟨new, hnew⟩
    | ok u =>
      rw [StepLoop.after_succ_ok hc]
      rw [hc, landed_ok] at hnew
      obtain ⟨new', hnew'⟩ := ih hnew.remembers
      exact ⟨new ++ new', hnew.trans hnew'⟩

/-- **A whole run.** -/
theorem Remembers.run (h : Remembers timeline m) (hrun : m.state.halted = .running)
    {hooks : IOHooks η} {fuel : Nat} {r : HaltReason} (hr : Bench.run hooks fuel m = some (r, m')) :
    ∃ new, Follows timeline new m m' := by
  obtain ⟨x, hx, hreply⟩ := Option.bind_eq_some_iff.mp hr
  rw [exec_turn_eq _ hrun, StepLoop.exec_eq_some_iff] at hx
  have hafter := h.after hooks fuel
  rw [hx, landed_error] at hafter
  cases hstop : x.stop with
  | threw e =>
    rw [hstop] at hreply
    cases hreply
  | returned r' =>
    rw [hstop] at hreply
    cases hreply
    exact hafter

/-! ## Going back -/

/-- `m` is in the state of snapshot `f`. -/
structure Stands (m : BenchVM η) (f : Moment η) : Prop where
  regs       : m.state.regs = f.vm.state.regs
  pc         : m.state.pc = f.vm.state.pc
  sp         : m.state.sp = f.vm.state.sp
  flags      : m.state.flags = f.vm.state.flags
  cycleCount : m.state.cycleCount = f.vm.state.cycleCount
  mem        : m.mem = f.vm.mem

theorem Stands.cpu {f : Moment η} (h : Stands m f) : m.state.cpu = f.vm.state.cpu := by
  unfold VMState.cpu
  rw [h.regs, h.pc, h.flags]

/-- What is pending does not show once the deltas above slot `tgt` are undone: it is about bytes
they put back. -/
def Masked (tgt : Nat) (m : BenchVM η) : Prop :=
  ∀ a, m.mem a = rollback MemDelta.undo m.vm.deltas m.mem a ∨
    ∃ s ∈ (m.env.2.ring.take (m.env.2.historyIndex + 1)).drop (tgt + 1), ∃ d ∈ s.deltas,
      a ∈ cells d.addr

theorem masked_of_settled (h : m.vm.deltas = []) (tgt : Nat) : Masked tgt m := by
  intro a
  rw [h]
  exact .inl rfl

/-- A delta puts back the four bytes of its word. -/
theorem undo_putsBack : PutsBack MemDelta.undo fun d => cells d.addr where
  back _ _ _ _ ha := pokeU32_of_mem _ _ ha
  frame _ _ _ ha := pokeU32_of_notMem ha

/-- What is in the slots of the ring up to the index. -/
theorem Remembers.slot (h : Remembers timeline m) {n : Nat} (hn : n ≤ m.env.2.historyIndex)
    (hring : m.env.2.historyIndex - n < m.env.2.ring.length) :
    m.env.2.ring[m.env.2.historyIndex - n]? =
      (default :: timeline.map (·.snapshot))[timeline.length - n]? := by
  have hget := h.holds.get (n := n) hn
  rw [List.length_cons, List.length_map, Nat.add_sub_cancel] at hget
  rw [← hget]
  change _ = (resize m.env.2.ring (m.env.2.historyIndex + 1))[m.env.2.historyIndex - n]?
  unfold resize
  rw [List.getElem?_append_left (by rw [List.length_take]; omega),
    List.getElem?_take_of_lt (by omega)]

/-- Undoing the logs of the last `n` snapshots. -/
theorem Remembers.undone (h : Remembers timeline m) {n : Nat}
    (hmasked : Masked (m.env.2.historyIndex - n) m) (hn : n ≤ m.env.2.historyIndex) {f : Moment η}
    (hf : timeline[timeline.length - 1 - n]? = some f) (hlt : n < timeline.length) :
    undoDeltas (m.env.2.historyIndex - n) m.env.2.historyIndex m =
      { m with vm := { m.vm with mem := f.vm.mem } } := by
  have hne : timeline ≠ [] := List.ne_nil_of_length_pos (by omega)
  have hsince := h.holds.since hn
  have htake : (m.env.2.history.slots).take (m.env.2.history.index + 1) =
      m.env.2.ring.take (m.env.2.historyIndex + 1) := by
    unfold Locals.history
    rw [resize_eq_take (h.inside hne), List.take_take, Nat.min_self]
  have hdrop : (default :: timeline.map (·.snapshot)).drop
      ((default :: timeline.map (·.snapshot)).length - n) =
        (timeline.drop (timeline.length - n)).map (·.snapshot) := by
    rw [List.length_cons, List.length_map, Nat.succ_sub (by omega), List.drop_succ_cons,
      List.map_drop]
  rw [htake, hdrop] at hsince
  change (m.env.2.ring.take (m.env.2.historyIndex + 1)).drop (m.env.2.historyIndex - n + 1) = _
    at hsince
  -- what is pending does not show, so the memory may be taken for that of the last snapshot
  have hlast := List.getLast?_eq_some_getLast hne
  have hcur : unwind MemDelta.undo (fun s : Snapshot => s.deltas)
      ((timeline.drop (timeline.length - n)).map (·.snapshot)) m.mem =
        unwind MemDelta.undo (fun s : Snapshot => s.deltas)
          ((timeline.drop (timeline.length - n)).map (·.snapshot))
            (timeline.getLast hne).vm.mem := by
    funext a
    have ha := hmasked a
    rw [hsince, h.latest _ hlast] at ha
    exact undo_putsBack.unwind ha
  have hmem : unwind MemDelta.undo (fun s : Snapshot => s.deltas)
      ((timeline.drop (timeline.length - n)).map (·.snapshot)) m.mem = f.vm.mem := by
    rw [hcur, unwind_firings]
    exact unwind_chain_back MemDelta.undo (fun f : Moment η => f.snapshot.deltas)
      (fun f => f.vm.mem) h.chain hlt hf hlast
  unfold undoDeltas
  rw [hsince, unwind_eq, hmem]

/-- `m` put back to `f`, which is in slot `tgt`. -/
def restored (m : BenchVM η) (f : Moment η) (tgt : Nat) : BenchVM η := { m with
  vm := {
    mem := f.vm.mem
    state := { m.state with
      cycleCount := f.snapshot.cycleCount
      regs := f.snapshot.regs
      pc := f.snapshot.pc
      sp := f.snapshot.sp
      flags := f.snapshot.flags
      halted := f.snapshot.halted }
    deltas := m.vm.deltas }
  env := (m.env.1, { m.env.2 with historyIndex := tgt }) }

/-- **Going back `n` snapshots**, with what is pending masked: the VM is put to where the snapshot
was taken. -/
theorem Remembers.restores (h : Remembers timeline m) {n : Nat}
    (hmasked : Masked (m.env.2.historyIndex - n) m) (hn : n ≤ m.env.2.historyIndex) {f : Moment η}
    (hf : timeline[timeline.length - 1 - n]? = some f) (hlt : n < timeline.length) :
    m.env.2.ring[m.env.2.historyIndex - n]? = some f.snapshot ∧
      rewindTo (m.env.2.historyIndex - n) m =
        some (restored m f (m.env.2.historyIndex - n)) ∧
      Stands (restored m f (m.env.2.historyIndex - n)) f := by
  have hne : timeline ≠ [] := List.ne_nil_of_length_pos (by omega)
  have hinside := h.inside hne
  have hslot := h.slot hn (by omega)
  rw [show timeline.length - n = timeline.length - 1 - n + 1 by omega, List.getElem?_cons_succ,
    List.getElem?_map, hf] at hslot
  have hshown := h.genuine f (List.mem_of_getElem? hf)
  refine ⟨hslot, ?_, ?_⟩
  · unfold rewindTo
    rw [h.undone hmasked hn hf hlt]
    unfold restoreState
    change ((m.env.2.ring[m.env.2.historyIndex - n]?).map _).map _ = _
    rw [hslot]
    rfl
  · exact ⟨congrArg (·.regs) hshown, congrArg (·.pc) hshown, congrArg (·.sp) hshown,
      congrArg (·.flags) hshown, congrArg (·.cycleCount) hshown, rfl⟩

/-- With nothing pending, the timeline is cut back to it as well. -/
theorem Remembers.rewound (h : Remembers timeline m) (hsettled : m.vm.deltas = []) {n : Nat}
    (hn : n ≤ m.env.2.historyIndex) {f : Moment η}
    (hf : timeline[timeline.length - 1 - n]? = some f) (hlt : n < timeline.length) :
    m.env.2.ring[m.env.2.historyIndex - n]? = some f.snapshot ∧
      rewindTo (m.env.2.historyIndex - n) m =
        some (restored m f (m.env.2.historyIndex - n)) ∧
      Stands (restored m f (m.env.2.historyIndex - n)) f ∧
      Remembers (timeline.take (timeline.length - n))
        (restored m f (m.env.2.historyIndex - n)) := by
  have hinside := h.inside (List.ne_nil_of_length_pos (by omega))
  obtain ⟨hslot, hback, hstands⟩ := h.restores (masked_of_settled hsettled _) hn hf hlt
  refine ⟨hslot, hback, hstands, ?_⟩
  have hheld := h.holds.back (n := n) hn
  rw [List.length_cons, List.length_map, Nat.succ_sub (by omega), List.take_succ_cons,
    ← List.map_take] at hheld
  refine ⟨?_, fun _ => ?_, h.chain.take _, fun g hg => h.genuine g (List.mem_of_mem_take hg),
    fun g hg => h.past g (List.mem_of_mem_take hg), ⟨?_, h.stack.2⟩, fun g hg => ?_⟩
  · have hle := h.index_le
    refine hheld.cut ?_ ?_
    · rw [resize_length]
      change m.env.2.historyIndex - n + 1 ≤ 256
      omega
    · change (resize m.env.2.ring (m.env.2.historyIndex - n + 1)).take
        (m.env.2.historyIndex - n + 1) =
          (resize m.env.2.ring (m.env.2.historyIndex + 1)).take (m.env.2.historyIndex - n + 1)
      rw [resize_eq_take (by omega), resize_eq_take hinside, List.take_take, List.take_take]
      congr 1
      omega
  · change m.env.2.historyIndex - n < m.env.2.ring.length
    omega
  · exact h.stack.2 f (h.past f (List.mem_of_getElem? hf))
  · obtain rfl : f = g := Option.some.inj ((getLast?_take_back hlt hf).symm.trans hg)
    change rollback MemDelta.undo m.vm.deltas f.vm.mem = f.vm.mem
    rw [hsettled]
    rfl

/-- No snapshot taken is the filler. -/
theorem Remembers.ne_default {timeline : List (Moment η)} (h : Remembers timeline m)
    {f : Moment η} (hf : f ∈ firings m.history) : f.snapshot ≠ default := by
  intro hfiller
  have hsp := h.stack.2 f hf
  rw [hfiller] at hsp
  exact absurd hsp (by decide)

/-- A VM that was started remembers nothing but the filler. -/
theorem remembers_start {bytes : List UInt8} {interval : UInt32} {e : η}
    (h : start bytes interval e = some m) : Remembers [] m ∧ m.state.halted = .running := by
  obtain ⟨vm, hboot, rfl⟩ := Option.map_eq_some_iff.mp h
  obtain rfl := boot_eq_some hboot
  refine ⟨⟨Holds.singleton (by decide) _, fun hne => absurd rfl hne, List.isChain_nil,
    fun f hf => absurd hf List.not_mem_nil, fun f hf => absurd hf List.not_mem_nil,
    ⟨rfl, fun f hf => absurd hf List.not_mem_nil⟩, fun f hf => ?_⟩, rfl⟩
  cases hf

/-- `do_step` starts from what `do_back` left. -/
theorem Remembers.toStep (h : Remembers timeline m) (depth : UInt64) :
    Remembers timeline (toStep depth m) :=
  h.congr rfl rfl rfl rfl rfl

end Remembers

/-- The fuel it takes to see the end of a run. -/
theorem run_of_after {hooks : IOHooks η} {m u : BenchVM η} {x : Exit (η × Locals)} {n : Nat}
    {r : HaltReason} (hrun : m.state.halted = .running)
    (hn : StepLoop.after (Machine.cycle (env hooks)) n m = .ok u)
    (hx : u.cycle (env hooks) = .error x) (hstop : x.stop = .returned r) :
    run hooks (n + 1) m = some (r, x.machine) := by
  have hexec : StepLoop.exec (Machine.cycle (env hooks)) (n + 1) m = some x := by
    rw [StepLoop.exec_eq_some_iff, StepLoop.after_succ_right hn, hx]
  unfold run
  rw [exec_turn_eq _ hrun, hexec, Option.bind_some, hstop]

/-- A run comes to one end. -/
theorem run_unique {hooks : IOHooks η} {m : BenchVM η} {fuel fuel' : Nat}
    {a a' : HaltReason × BenchVM η} (h : run hooks fuel m = some a)
    (h' : run hooks fuel' m = some a') : a = a' := by
  obtain ⟨x, hx, ha⟩ := Option.bind_eq_some_iff.mp h
  obtain ⟨x', hx', ha'⟩ := Option.bind_eq_some_iff.mp h'
  obtain rfl := StepLoop.Leaves.unique (StepLoop.leaves_iff_exec.mpr ⟨fuel, hx⟩)
    (StepLoop.leaves_iff_exec.mpr ⟨fuel', hx'⟩)
  exact Option.some.inj (ha.symm.trans ha')

/-! ## Fetches -/

/-- A fetch the sink lets pass. -/
theorem tick_passes (hooks : IOHooks η) {m : BenchVM η} (hrun : m.state.halted = .running)
    (hq : m.env.2.pause (m.state.cycleCount + 1) = none) :
    ∃ u, m.advance.snapTick (env hooks) = .ok u ∧ u.env.2.targetCycle = m.env.2.targetCycle := by
  obtain ⟨henv, hhalted, -⟩ := fired_fetch hooks m
  have hsettle : m.env.2.settle (m.state.cycleCount + 1) = m.env.2 := by
    unfold Locals.pause at hq
    unfold Locals.settle
    split at hq
    · cases hq
    · next hoff => exact if_neg hoff
  rcases snapTick_cases (env hooks) m.advance with
    ⟨-, ht⟩ | ⟨-, -, ht⟩ | ⟨-, -, -, ht⟩ | ⟨-, -, hh, -⟩
  · exact ⟨_, ht, rfl⟩
  · exact ⟨_, ht, rfl⟩
  · exact ⟨_, ht, by rw [henv, push_targetCycle, hsettle]⟩
  · refine absurd ?_ hh
    rw [hhalted, hq]
    exact hrun

end Bench

end RetroVM

import RetroVM.Engine.Frame
import RetroVM.Lib.UndoLog

/-!
# The delta log is an undo log (`vm.cpp`, `label_STORE`; `vm.hpp`, `apply_old_value`)

`STORE` logs the old word of its cell before it writes, or lets the newest entry stand for one
more write of the same cell; a firing hands the log to the sink and starts a new one. The invariant
of a run is `Undoable`: the pending log rolls the memory back to what it was at the last firing,
and the firings are a chain of linked checkpoints.

Results:
* `logStore_rollback`: a `STORE` and its log entry cancel, whatever the log held.
* `cycle_undoable`: every cycle keeps `Undoable`.
* **`delta_log_is_complete`**: the logs of snapshots `i + 1` to `j` take the memory of snapshot `j`
  back to that of snapshot `i`.
-/

namespace RetroVM

open UndoLog

variable {ε : Type}

/-! ## One store -/

theorem undo_runCount (d : MemDelta) (n : UInt8) (m : Memory) :
    MemDelta.undo { d with runCount := n } m = d.undo m := rfl

/-- **A `STORE` and its log entry cancel**: whether the entry is new or merged into the newest one,
the log still leads back to where it led. -/
theorem logStore_rollback {mem : Memory} {deltas : List MemDelta} {imm : UInt32}
    (h : imm.toNat < memSize) (v : UInt32) :
    rollback MemDelta.undo (ComputedGoto.logStore mem deltas imm) (memStoreU32 mem imm v) =
      rollback MemDelta.undo deltas mem := by
  have pushed : rollback MemDelta.undo (deltas ++ [MemDelta.fresh mem imm])
      (memStoreU32 mem imm v) = rollback MemDelta.undo deltas mem :=
    rollback_push (fresh_undo_store h)
  unfold ComputedGoto.logStore
  cases hlast : deltas.getLast? with
  | none => exact pushed
  | some back =>
    simp only []
    split
    · next same =>
      obtain ⟨hpage, hoffset, -⟩ := same
      have haddr : back.addr = imm := by
        unfold MemDelta.addr
        rw [hpage, hoffset]
        exact joinAddr_split h
      have hdeltas : deltas = deltas.dropLast ++ [back] :=
        (List.dropLast_append_getLast? back hlast).symm
      conv_rhs => rw [hdeltas]
      apply rollback_merge
      rw [undo_runCount, undo_store_of_addr haddr]
    · exact pushed

/-- The address a `STORE` writes is an immediate. -/
theorem write_addr_lt {instr : UInt32} {i : Instr} {mem : Memory} {c : Cpu} {addr v : UInt32}
    (hd : decode instr = some i) (he : i.effect mem c = .write addr v) : addr.toNat < memSize := by
  unfold decode at hd
  cases ho : Opcode.ofCode (decodeOp instr) with
  | none =>
    rw [ho] at hd
    cases hd
  | some o =>
    rw [ho] at hd
    cases hd
    cases o with
    | opStore =>
      cases he
      exact decodeImm_lt instr
    | opDiv =>
      simp only [Opcode.instr, Instr.effect] at he
      split at he <;> cases he
    | _ => cases he

/-- No instruction moves where the pending log leads back to. -/
theorem retire_rollback (E : Env ε) (instr : UInt32) (m : Machine ε) :
    rollback MemDelta.undo (landed (m.retire E instr)).vm.deltas (landed (m.retire E instr)).mem =
      rollback MemDelta.undo m.vm.deltas m.mem := by
  unfold Machine.retire
  cases hd : decode instr with
  | none => rfl
  | some i =>
    simp only []
    cases he : i.effect m.mem m.state.cpu with
    | next c => rfl
    | write addr v => exact logStore_rollback (write_addr_lt hd he) v
    | ask q dst =>
      let d := m.dispatched instr
      let c := consult E.hooks q m.state.cycleCount m.env
      change rollback _ (landed (d.receive dst c)).vm.deltas (landed (d.receive dst c)).vm.mem = _
      rw [landed_receive, received_deltas, received_mem]
      rfl
    | stop c r => rfl

/-! ## The invariant of a run -/

/-- Consecutive firings: the later one's log rolls its memory back to the earlier one's. -/
def LinkedFirings (a b : Firing ε) : Prop :=
  Linked MemDelta.undo (fun f : Firing ε => f.snapshot.deltas) (fun f => f.vm.mem) a b

/-- The memory at the last firing, or `base` before the first one. -/
def memAtLastFiring (base : Memory) (m : Machine ε) : Memory :=
  ((firings m.history).getLast?.map fun f => f.vm.mem).getD base

/-- **The delta-log invariant.** -/
structure Undoable (base : Memory) (m : Machine ε) : Prop where
  /-- The pending log leads back to the last firing. -/
  pending : rollback MemDelta.undo m.vm.deltas m.mem = memAtLastFiring base m
  /-- Every firing's log leads back to the firing before it. -/
  chain : (firings m.history).IsChain LinkedFirings

theorem Undoable.of_same {base : Memory} {m m' : Machine ε} (h : Undoable base m)
    (hroll : rollback MemDelta.undo m'.vm.deltas m'.mem = rollback MemDelta.undo m.vm.deltas m.mem)
    (hfire : firings m'.history = firings m.history) : Undoable base m' where
  pending := by
    unfold memAtLastFiring
    rw [hroll, hfire]
    exact h.pending
  chain := hfire ▸ h.chain

/-- A firing extends the chain and starts a new log. -/
theorem Undoable.fired {base : Memory} {m : Machine ε} (h : Undoable base m) {E : Env ε}
    {sink : SnapshotSink ε} (hs : E.snapSink = some sink) : Undoable base (m.fired E) := by
  rw [fired_of_sink hs]
  constructor
  · simp [memAtLastFiring, VM.setState]
  · simp only [firings_append, firings_fire]
    refine List.isChain_append.mpr ⟨h.chain, List.isChain_singleton _, ?_⟩
    intro last hlast f hf
    have hp := h.pending
    unfold memAtLastFiring at hp
    rw [show (firings m.history).getLast? = some last from hlast] at hp
    cases hf
    exact hp

/-- **Every cycle keeps the invariant**, whatever the hooks and the sink do. -/
theorem cycle_undoable {base : Memory} {m : Machine ε} {E : Env ε} {sink : SnapshotSink ε}
    (hs : E.snapSink = some sink) (h : Undoable base m) : Undoable base (landed (m.cycle E)) := by
  have hadv : Undoable base m.advance := h.of_same rfl rfl
  have htick : Undoable base m.advance.tick := hadv.of_same rfl rfl
  have hretire : ∀ m' : Machine ε, Undoable base m' →
      Undoable base (landed (m'.retire E m.fetched)) := fun m' h' =>
    h'.of_same (retire_rollback E m.fetched m') (retire_frame E m.fetched m').firings
  unfold Machine.cycle
  rcases snapTick_cases E m.advance with ⟨-, ht⟩ | ⟨-, -, ht⟩ | ⟨-, -, -, ht⟩ | ⟨-, -, -, ht⟩
  · rw [ht]
    exact hretire _ hadv
  · rw [ht]
    exact hretire _ htick
  · rw [ht]
    exact hretire _ (htick.fired hs)
  · rw [ht]
    exact htick.fired hs

/-! ## Whole runs -/

/-- Roll a VM back through a list of snapshots as the REPL's `back` loop does: newest snapshot
first, each delta list in reverse. -/
def VM.unwind (snaps : List Snapshot) (vm : VM) : VM :=
  snaps.reverse.foldl (fun vm s => s.deltas.reverse.foldl VM.applyOldValue vm) vm

theorem foldl_applyOldValue (ds : List MemDelta) (vm : VM) :
    ds.foldl VM.applyOldValue vm =
      { vm with mem := ds.foldl (fun m d => d.undo m) vm.mem } := by
  induction ds generalizing vm with
  | nil => rfl
  | cons d ds ih =>
    rw [List.foldl_cons, ih]
    rfl

/-- The loop unwinds the memory and touches nothing else. -/
theorem unwind_eq (snaps : List Snapshot) (vm : VM) :
    vm.unwind snaps =
      { vm with mem := unwind MemDelta.undo (fun s : Snapshot => s.deltas) snaps vm.mem } := by
  rw [← foldl_reverse_eq_unwind]
  unfold VM.unwind
  generalize snaps.reverse = l
  induction l generalizing vm with
  | nil => rfl
  | cons s l ih =>
    rw [List.foldl_cons, ih, foldl_applyOldValue]
    rfl

/-- The log of a firing is the log of its snapshot. -/
theorem unwind_firings (fs : List (Firing ε)) (m : Memory) :
    unwind MemDelta.undo (fun s : Snapshot => s.deltas) (fs.map (·.snapshot)) m =
      unwind MemDelta.undo (fun f : Firing ε => f.snapshot.deltas) fs m := by
  unfold unwind
  rw [List.foldr_map]

theorem after_undoable {base : Memory} {m : Machine ε} {E : Env ε} {sink : SnapshotSink ε}
    (hs : E.snapSink = some sink) (h : Undoable base m) (n : Nat) :
    Undoable base (landed (StepLoop.after (Machine.cycle E) n m)) := by
  induction n generalizing m with
  | zero => exact h
  | succ n ih =>
    have hc := cycle_undoable hs h
    cases hm : m.cycle E with
    | ok m' =>
      rw [StepLoop.after_succ_ok hm]
      exact ih (by rwa [hm] at hc)
    | error x =>
      rw [StepLoop.after_succ_error hm]
      rwa [hm] at hc

/-- **The delta log is a complete undo log.** Load any image, set any interval, attach any sink
and any hooks, run on either dispatch path. Of any two snapshots `i < j` fired by then, the deltas
of `j`, `j - 1`, …, `i + 1` take the memory of `j` back to the memory of `i`. -/
theorem delta_log_is_complete (bytes : List UInt8) (k : UInt32) (hooks : IOHooks ε)
    (sink : SnapshotSink ε) (mode : DispatchMode) (env : ε) (vm : VM)
    (hboot : VM.boot bytes = some vm) (n : Nat) (fs : List (Firing ε))
    (hfs : fs = firings (landed (StepLoop.after (turn ⟨hooks, some sink, mode⟩) n
      (.start (vm.setSnapshotInterval k) env))).history)
    (i j : Nat) (hij : i < j) (hj : j < fs.length) :
    (fs[j].vm.unwind (((fs.take (j + 1)).drop (i + 1)).map (·.snapshot))).mem = fs[i].vm.mem := by
  have hvm := boot_eq_some hboot
  let m0 : Machine ε := .start (vm.setSnapshotInterval k) env
  have hrun : m0.state.halted = .running := by
    change vm.state.halted = .running
    rw [hvm]
    rfl
  have h0 : Undoable m0.mem m0 := by
    refine ⟨?_, List.isChain_nil⟩
    change rollback _ vm.deltas vm.mem = vm.mem
    rw [hvm]
    rfl
  have hfin := after_undoable (E := ⟨hooks, some sink, mode⟩) rfl h0 n
  rw [← after_turn_eq _ hrun, ] at hfin
  have hchain := hfin.chain
  rw [← hfs] at hchain
  rw [unwind_eq, unwind_firings]
  exact unwind_chain_getElem _ _ (fun f : Firing ε => f.vm.mem) hchain (Nat.le_of_lt hij) hj

/-- `LI R0, 7; STORE R0, 0x100; STORE R0, 0x101; HALT`, with a snapshot every cycle: the overlapping
stores between the first and the fourth snapshot unwind. -/
theorem delta_log_is_complete_overlapping :
    let bytes := imageOf [encode 0x0B 0 0 7, encode 0x02 0 0 0x100, encode 0x02 0 0 0x101, 0]
    let fs := firings (landed (StepLoop.after
      (turn ⟨⟨none, none, none⟩, some fun _ _ u => (none, u), .computedGoto⟩) 4
      (.start (VM.setSnapshotInterval { VM.init with mem := fun a => bytes.getD a 0 } 1)
        ()))).history
    ∃ h : 3 < fs.length, fs[3].vm.mem 0x101 = 7 ∧ fs[0].vm.mem 0x101 = 0 ∧
      (fs[3].vm.unwind (((fs.take 4).drop 1).map (·.snapshot))).mem = fs[0].vm.mem := by
  intro bytes fs
  have hfour : 3 < fs.length := by
    decide +kernel
  have hlate : fs[3]?.map (·.vm.mem 0x101) = some 7 := by
    decide +kernel
  have hearly : fs[0]?.map (·.vm.mem 0x101) = some 0 := by
    decide +kernel
  rw [List.getElem?_eq_getElem hfour] at hlate
  rw [List.getElem?_eq_getElem (Nat.zero_lt_of_lt hfour)] at hearly
  exact ⟨hfour, Option.some.inj hlate, Option.some.inj hearly,
    delta_log_is_complete bytes 1 _ _ .computedGoto () _ (boot_of_le (by decide)) 4 fs rfl 0 3
      (by decide) hfour⟩

end RetroVM

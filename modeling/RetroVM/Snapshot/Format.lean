import RetroVM.Engine.Words
import RetroVM.Engine.Alike

/-!
# The `.snap` format (`main.cpp`, `cmd_snapshot`; `include/retrovm/vm.hpp`)

`cmd_snapshot` writes every snapshot to a file of its own: a 32-byte header, a 40-byte register
block and the delta list. The header's word `flags` is reserved and always 0, and the register block
ends with pc and sp, so the flag register is in neither.

Results:
* `cmdSnapshot_files`: the files are the encodings of the snapshots the sink received, in order.
* **`snapshotFile_eq_iff`**: a file determines everything in its snapshot but the flags.
* `snapshotFile_loses_flags`: and not the flags.
-/

namespace RetroVM

/-! ## Encoding -/

/-- `"RVMSNAP"`, its terminator included. -/
def snapshotMagic : List UInt8 := [0x52, 0x56, 0x4D, 0x53, 0x4E, 0x41, 0x50, 0x00]

/-- A `MemDelta` as it lies in memory. -/
def MemDelta.bytes (d : MemDelta) : List UInt8 :=
  [d.runCount, d.page, d.offset.toUInt8, (d.offset >>> 8).toUInt8] ++ wordBytes d.oldValue

/-- `SnapshotFileHeader`. -/
def snapshotFileHeader (s : Snapshot) : List UInt8 :=
  let version : UInt32 := 1
  let flags : UInt32 := 0
  let numDeltas := UInt32.ofNat s.deltas.length
  snapshotMagic ++ (wordBytes version ++ (wordBytes flags ++ (dwordBytes s.cycleCount ++
    (wordBytes s.halted.code ++ wordBytes numDeltas))))

/-- `SnapshotFileRegs`. -/
def snapshotFileRegs (s : Snapshot) : List UInt8 :=
  s.regs.toList.flatMap wordBytes ++ (wordBytes s.pc ++ wordBytes s.sp)

/-- The bytes the sink of `cmd_snapshot` writes. -/
def snapshotFile (s : Snapshot) : List UInt8 :=
  snapshotFileHeader s ++ (snapshotFileRegs s ++ s.deltas.flatMap MemDelta.bytes)

/-! ## The command -/

/-- The sink of `cmd_snapshot`; the files written so far are its state. -/
def snapshotSink : SnapshotSink ((Nat × Nat) × List (List UInt8)) := fun s _ (e, files) =>
  (none, (e, files ++ [snapshotFile s]))

/-- What is wired to the VM of `cmd_snapshot`. -/
def snapshotEnv (stdin rng : Nat → UInt32) : Env ((Nat × Nat) × List (List UInt8)) :=
  ⟨(hostHooks stdin rng).beside _, some snapshotSink, .computedGoto⟩

/-- What `cmd_snapshot` leaves. -/
inductive SnapshotOutcome where
  /-- The program exceeds `MEM_SIZE`. -/
  | tooLarge
  /-- The run halted; file `i` is `<bin>.snap.<i>`. -/
  | halted (r : HaltReason) (vm : VM) (files : List (List UInt8))
  /-- An exception left `main`; no hook of `cmd_snapshot` throws one. -/
  | uncaught (e : TraceMismatch)

/-- What `cmd_snapshot` does once its run is over. -/
def snapshotVerdict (x : Exit ((Nat × Nat) × List (List UInt8))) : SnapshotOutcome :=
  match x.stop with
  | .threw e => .uncaught e
  | .returned r => .halted r x.machine.vm x.machine.env.2

/-- `cmd_snapshot`. -/
def cmdSnapshot (bytes : List UInt8) (interval : UInt32) (stdin rng : Nat → UInt32) (fuel : Nat) :
    Option SnapshotOutcome :=
  match VM.boot bytes with
  | none => some .tooLarge
  | some vm =>
    (StepLoop.exec (turn (snapshotEnv stdin rng)) fuel
      (.start (vm.setSnapshotInterval interval) ((0, 0), []))).map snapshotVerdict

/-- The exit code of `cmd_snapshot`; an uncaught exception has none. -/
def SnapshotOutcome.exitCode : SnapshotOutcome → Option Nat
  | .tooLarge => some 1
  | .halted r _ _ => some (if r = .normal then 0 else 2)
  | .uncaught _ => none

/-- The snapshots the sink has received `n` turns into the run of `cmd_snapshot`. -/
def receivedSnapshots (bytes : List UInt8) (interval : UInt32) (stdin rng : Nat → UInt32)
    (n : Nat) : List Snapshot :=
  match VM.boot bytes with
  | none => []
  | some vm =>
    (firings (landed (StepLoop.after (turn (snapshotEnv stdin rng)) n
      (.start (vm.setSnapshotInterval interval) ((0, 0), [])))).history).map (·.snapshot)

section Files

variable (stdin rng : Nat → UInt32) {m : Machine ((Nat × Nat) × List (List UInt8))}

/-- The files are the encodings of the snapshots received. -/
def Dumped (m : Machine ((Nat × Nat) × List (List UInt8))) : Prop :=
  m.env.2 = (firings m.history).map fun f => snapshotFile f.snapshot

theorem cycle_dumped (h : Dumped m) : Dumped (landed (m.cycle (snapshotEnv stdin rng))) := by
  have hretire : ∀ (u : Machine ((Nat × Nat) × List (List UInt8))) (instr : UInt32), Dumped u →
      Dumped (landed (u.retire (snapshotEnv stdin rng) instr)) := by
    intro u instr hu
    unfold Dumped
    rw [(retire_frame (snapshotEnv stdin rng) instr u).firings]
    exact (retire_beside (hostHooks stdin rng) _ _ instr u).trans hu
  have hfired : Dumped (m.advance.tick.fired (snapshotEnv stdin rng)) := by
    unfold Dumped
    rw [fired_of_sink (show (snapshotEnv stdin rng).snapSink = some snapshotSink from rfl)]
    simp only [firings_append, firings_fire, List.map_append, List.map_cons, List.map_nil]
    exact congrArg (· ++ _) h
  unfold Machine.cycle
  rcases snapTick_cases (snapshotEnv stdin rng) m.advance with
    ⟨-, ht⟩ | ⟨-, -, ht⟩ | ⟨-, -, -, ht⟩ | ⟨-, -, -, ht⟩
  · rw [ht]
    exact hretire m.advance _ h
  · rw [ht]
    exact hretire m.advance.tick _ h
  · rw [ht]
    exact hretire _ _ hfired
  · rw [ht]
    exact hfired

/-- Any number of turns. -/
theorem files_after (h : Dumped m) (n : Nat) :
    Dumped (landed (StepLoop.after (Machine.cycle (snapshotEnv stdin rng)) n m)) := by
  induction n generalizing m with
  | zero => exact h
  | succ n ih =>
    have hc := cycle_dumped stdin rng h
    cases hm : m.cycle (snapshotEnv stdin rng) with
    | ok m' =>
      rw [hm] at hc
      rw [StepLoop.after_succ_ok hm]
      exact ih hc
    | error x =>
      rw [hm] at hc
      rw [StepLoop.after_succ_error hm]
      exact hc

variable {stdin rng}

/-- **The files written are the encodings of the snapshots received**, in order. -/
theorem cmdSnapshot_files {bytes : List UInt8} {interval : UInt32} {fuel : Nat} {r : HaltReason}
    {vm : VM} {files : List (List UInt8)}
    (h : cmdSnapshot bytes interval stdin rng fuel = some (.halted r vm files)) :
    files = (receivedSnapshots bytes interval stdin rng fuel).map snapshotFile := by
  unfold cmdSnapshot at h
  unfold receivedSnapshots
  cases hb : VM.boot bytes with
  | none =>
    rw [hb] at h
    cases h
  | some vm0 =>
    rw [hb] at h
    obtain ⟨x, hx, hverdict⟩ := Option.map_eq_some_iff.mp h
    rw [StepLoop.exec_eq_some_iff] at hx
    have hrun : (Machine.start (vm0.setSnapshotInterval interval)
        (((0, 0), []) : (Nat × Nat) × List (List UInt8))).state.halted = .running :=
      (boot_running hb).1
    have hdumped := files_after stdin rng
      (m := .start (vm0.setSnapshotInterval interval) ((0, 0), [])) rfl fuel
    rw [← after_turn_eq _ hrun, hx] at hdumped
    have hfiles : x.machine.env.2 = files := by
      unfold snapshotVerdict at hverdict
      cases hstop : x.stop with
      | threw e =>
        rw [hstop] at hverdict
        cases hverdict
      | returned r' =>
        rw [hstop] at hverdict
        cases hverdict
        rfl
    simp only [hx, landed_error, List.map_map]
    exact hfiles.symm.trans hdumped

end Files

/-! ## What a file determines -/

theorem haltReason_code_injective : Function.Injective HaltReason.code := by
  intro r r' h
  cases r <;> cases r' <;> first | rfl | exact absurd h (by decide)

theorem delta_bytes_length (d : MemDelta) : d.bytes.length = 8 := rfl

/-- A 16-bit number is made of its two bytes. -/
theorem halfword_bytes {a b : UInt16} (hlow : a.toUInt8 = b.toUInt8)
    (hhigh : (a >>> 8).toUInt8 = (b >>> 8).toUInt8) : a = b := by
  have hl := congrArg UInt8.toNat hlow
  have hh := congrArg UInt8.toNat hhigh
  have ha := a.toNat_lt
  have hb := b.toNat_lt
  apply UInt16.toNat.inj
  simp only [UInt16.toNat_toUInt8, UInt16.toNat_shiftRight, Nat.shiftRight_eq_div_pow] at hl hh
  change a.toNat / 2 ^ 8 % 256 = b.toNat / 2 ^ 8 % 256 at hh
  omega

theorem delta_bytes_injective : Function.Injective MemDelta.bytes := by
  intro d d' h
  obtain ⟨hhead, hold⟩ := List.append_inj h rfl
  simp only [List.cons.injEq, and_true] at hhead
  obtain ⟨hrun, hpage, hlow, hhigh⟩ := hhead
  cases d
  cases d'
  simp only [MemDelta.mk.injEq]
  exact ⟨hrun, hpage, halfword_bytes hlow hhigh, wordBytes_injective hold⟩

theorem snapshotFileRegs_length (s : Snapshot) : (snapshotFileRegs s).length = 40 := by
  unfold snapshotFileRegs
  rw [List.length_append, flatMap_wordBytes_length, Vector.length_toList]
  rfl

/-- **What a `.snap` file determines**: cycle count, registers, pc, sp, halt tag and the whole delta
list of its snapshot, and nothing else. -/
theorem snapshotFile_eq_iff (s s' : Snapshot) :
    snapshotFile s = snapshotFile s' ↔
      s.cycleCount = s'.cycleCount ∧ s.regs = s'.regs ∧ s.pc = s'.pc ∧ s.sp = s'.sp ∧
        s.halted = s'.halted ∧ s.deltas = s'.deltas := by
  constructor
  · intro h
    obtain ⟨hheader, hrest⟩ := List.append_inj h rfl
    obtain ⟨hregs, hdeltas⟩ := List.append_inj hrest
      ((snapshotFileRegs_length s).trans (snapshotFileRegs_length s').symm)
    -- magic, version and reserved word are the same in every header
    have hcounts := List.append_cancel_left (List.append_cancel_left
      (List.append_cancel_left hheader))
    obtain ⟨hcycle, htags⟩ := List.append_inj hcounts rfl
    obtain ⟨hhalted, -⟩ := List.append_inj htags rfl
    obtain ⟨hfile, hpcsp⟩ := List.append_inj hregs (by
      rw [flatMap_wordBytes_length, flatMap_wordBytes_length, Vector.length_toList,
        Vector.length_toList])
    obtain ⟨hpc, hsp⟩ := List.append_inj hpcsp rfl
    have hlist : s.regs.toList = s'.regs.toList :=
      Records.flatMap_injective wordBytes_length (by decide) wordBytes_injective hfile
    exact ⟨dwordBytes_injective hcycle, Vector.toList_inj.mp hlist, wordBytes_injective hpc,
      wordBytes_injective hsp, haltReason_code_injective (wordBytes_injective hhalted),
      Records.flatMap_injective delta_bytes_length (by decide) delta_bytes_injective hdeltas⟩
  · rintro ⟨hcycle, hregs, hpc, hsp, hhalted, hdeltas⟩
    unfold snapshotFile snapshotFileHeader snapshotFileRegs
    rw [hcycle, hregs, hpc, hsp, hhalted, hdeltas]

/-- **The flags are not in the file.** `LI R0, 0; ADD R0, R0; HALT` and `LI R0, 0; LI R1, 0; HALT`
with a snapshot every three cycles: the zero flag is set in one and not in the other. -/
theorem snapshotFile_loses_flags :
    ¬ ∀ (bytes bytes' : List UInt8) (interval interval' : UInt32)
      (stdin rng stdin' rng' : Nat → UInt32) (n n' : Nat) (s s' : Snapshot),
      s ∈ receivedSnapshots bytes interval stdin rng n →
        s' ∈ receivedSnapshots bytes' interval' stdin' rng' n' →
          snapshotFile s = snapshotFile s' → s = s' := by
  intro hall
  let z : Snapshot := ⟨3, Vector.replicate 8 0, 12, 0xFFFFC, 0, .running, []⟩
  have hadd : receivedSnapshots (imageOf [encode 0x0B 0 0 0, encode 0x03 0 0 0, 0]) 3
      (fun _ => 0) (fun _ => 0) 3 = [{ z with flags := flagZF }] := by
    decide +kernel
  have hli : receivedSnapshots (imageOf [encode 0x0B 0 0 0, encode 0x0B 1 0 0, 0]) 3
      (fun _ => 0) (fun _ => 0) 3 = [z] := by
    decide +kernel
  have heq := hall _ _ _ _ _ _ _ _ _ _ { z with flags := flagZF } z
    (by rw [hadd]; exact List.mem_singleton_self _) (by rw [hli]; exact List.mem_singleton_self _)
    ((snapshotFile_eq_iff _ _).mpr ⟨rfl, rfl, rfl, rfl, rfl, rfl⟩)
  exact absurd heq (by decide)

end RetroVM

import Mathlib.Data.UInt
import RetroVM.Bench.Workload

/-!
# The dispatch benchmarks (`main.cpp`, `cmd_benchmark` / `cmd_benchmark_dispatch_cmp`)

Both run the workload once to see that it does what it should, once more to warm up, and then `n`
times with a clock around them, resetting the CPU but not the memory before each run. They print a
time per instruction, which is as good as the number of instructions it is divided by: the cycles of
the *first* run, or of the last, times `n`. What a run leaves in memory is there for the next, so
that every run is as long as that one is a fact about the workload.

Results:
* `workload_run`: the workload runs to its `HALT` wherever it is loaded, in either mode.
* **`benchmark_counts_every_op`**: the number divided by is what the timed runs retired.
-/

namespace RetroVM

/-- `reset_cpu_for_reuse`. -/
def VM.resetCpuForReuse (vm : VM) : VM where
  mem := vm.mem
  state := { sp := UInt32.ofNat (memSize - 4) }
  deltas := []

namespace Bench

/-! ## The commands -/

/-- What the benchmarks print, times apart. -/
inductive Outcome where
  /-- The program exceeds `MEM_SIZE`. -/
  | tooLarge
  /-- `benchmark sanity failed`. -/
  | sanityFailed (r : HaltReason)
  /-- `benchmark cycle count drift`. -/
  | drift (cycles : UInt64)
  /-- The total time is divided by `totalOps`; `runs` are the timed runs. -/
  | measured (cyclesPerRun totalOps : UInt64) (runs : List (HaltReason × UInt64))
  /-- An exception left `main`. -/
  | uncaught (e : TraceMismatch)
  deriving DecidableEq

section Commands

variable {ε : Type}

/-- `vm.run()`, and what comes after it. -/
def runThen (E : Env ε) (fuel : Nat) (vm : VM) (e : ε)
    (rest : HaltReason → VM → ε → Option Outcome) : Option Outcome :=
  match StepLoop.exec (RetroVM.turn E) fuel (.start vm e) with
  | none => none
  | some x =>
    match x.stop with
    | .threw t => some (.uncaught t)
    | .returned r => rest r x.machine.vm x.machine.env

/-- The timed phase, `n` runs before its end. -/
def timed (E : Env ε) (fuel : Nat) (rest : List (HaltReason × UInt64) → VM → Option Outcome) :
    Nat → List (HaltReason × UInt64) → VM → ε → Option Outcome
  | 0, runs, vm, _ => rest runs vm
  | n + 1, runs, vm, e =>
    runThen E fuel vm.resetCpuForReuse e fun r vm e =>
      timed E fuel rest n (runs ++ [(r, vm.state.cycleCount)]) vm e

/-- What both benchmarks do with a dispatch mode; `ops` is the number they divide by. -/
def measure (E : Env ε) (fuel nIters : Nat) (e : ε) (ops : UInt64 → VM → UInt64) :
    Option Outcome :=
  match VM.boot (imageOf workload) with
  | none => some .tooLarge
  | some vm =>
    runThen E fuel vm e fun sanity vm e =>
      if sanity ≠ .normal then some (.sanityFailed sanity)
      else
        let cyclesPerRun := vm.state.cycleCount
        if cyclesPerRun ≠ (2 + 9 * kBenchmarkLoopCount + 1).toUInt64 then
          some (.drift cyclesPerRun)
        else
          runThen E fuel vm.resetCpuForReuse e fun _ vm e =>
            timed E fuel (fun runs vm => some (.measured cyclesPerRun (ops cyclesPerRun vm) runs))
              nIters [] vm e

end Commands

/-- `cmd_benchmark`: the cycles of the sanity run, for every iteration. -/
def cmdBenchmark (stdin rng : Nat → UInt32) (fuel nIters : Nat) : Option Outcome :=
  measure (hostEnv stdin rng .computedGoto) fuel nIters (0, 0) fun cyclesPerRun _ =>
    cyclesPerRun * UInt64.ofNat nIters

/-- `run_mode` of `cmd_benchmark_dispatch_cmp`: the cycles the VM ended with, for every
iteration. -/
def runMode (stdin rng : Nat → UInt32) (fuel nIters : Nat) (mode : DispatchMode) :
    Option Outcome :=
  measure (hostEnv stdin rng mode) fuel nIters (0, 0) fun _ vm =>
    vm.state.cycleCount * UInt64.ofNat nIters

/-! ## The runs -/

section Runs

variable {ε : Type} {E : Env ε} {m u : Machine ε}

/-- The `HALT` leaves the memory. -/
theorem Going.halt_mem (h : Going 1 m) (hu : m.advance.snapTick E = .ok u) :
    ∃ x, m.cycle E = .error x ∧ x.stop = .returned .normal ∧ Loaded x.machine.mem := by
  obtain ⟨p, v, hv, hleft, hat⟩ := h
  obtain rfl := (left_pos hv).2.mp hleft
  refine ⟨_, hat.cycle (by decide) hu, rfl, ?_⟩
  change Loaded u.mem
  rw [(snapTick_cpu hu).2]
  exact hat.loaded

/-- A VM about to run what is at the start of its memory, with snapshots off. -/
structure Ready (vm : VM) : Prop where
  state  : vm.state = { sp := UInt32.ofNat (memSize - 4) }
  loaded : Loaded vm.mem

/-- **The workload runs to its `HALT`** from any memory it is loaded in, whatever is wired to the
VM, and is still loaded then. -/
theorem workload_run (E : Env ε) {vm : VM} (h : Ready vm) {fuel : Nat} (hfuel : 9219 ≤ fuel)
    (e : ε) :
    ∃ x, StepLoop.exec (RetroVM.turn E) fuel (.start vm e) = some x ∧
      x.stop = .returned .normal ∧ x.machine.state.cycleCount = 9219 ∧ Loaded x.machine.mem := by
  have hrun : (Machine.start vm e).state.halted = .running := congrArg VMState.halted h.state
  have hoff : (Machine.start vm e).state.snapInterval = 0 := congrArg VMState.snapInterval h.state
  have hzero : (Machine.start vm e).state.cycleCount = 0 := congrArg VMState.cycleCount h.state
  have hgoing : Going (9218 + 1) (Machine.start vm e) := by
    refine ⟨0, 0, ⟨by decide, by decide, by decide, by decide⟩, rfl,
      ⟨congrArg VMState.pc h.state, fun h => absurd h (by decide), fun h => absurd h (by decide),
        h.loaded⟩⟩
  let P : Nat → Machine ε → Prop := fun k u => Going (k + 1) u ∧ u.state.snapInterval = 0
  have hround : ∀ k u, P (k + 1) u →
      ∃ u', StepLoop.after (Machine.cycle E) 1 u = .ok u' ∧ P k u' := by
    rintro k u ⟨hg, hi⟩
    obtain ⟨u', hu', hg', -⟩ := hg.turn (snapTick_off E hi)
    have hone := (StepLoop.after_one u).trans hu'
    exact ⟨u', hone, hg', after_off hi hone⟩
  obtain ⟨u, hu, hg, hi⟩ := StepLoop.after_countdown hround 9218 ⟨hgoing, hoff⟩
  rw [Nat.mul_one] at hu
  obtain ⟨x, hx, hstop, hloaded⟩ := hg.halt_mem (snapTick_off E hi)
  refine ⟨x, ?_, hstop, ?_, hloaded⟩
  · obtain ⟨d, rfl⟩ := Nat.exists_eq_add_of_le hfuel
    rw [exec_turn_eq E hrun, StepLoop.exec_eq_some_iff]
    exact StepLoop.after_add_error ((StepLoop.after_succ_right hu).trans hx) d
  · have hcount := (cycle_frame E u).1
    rw [hx, landed_error, after_cycleCount hu, hzero] at hcount
    exact hcount

/-- So every run of a benchmark ends the same way, and the VM can be reset for the next. -/
theorem runThen_ready (E : Env ε) {vm : VM} (h : Ready vm) {fuel : Nat} (hfuel : 9219 ≤ fuel)
    (e : ε) :
    ∃ vm' e', (∀ rest, runThen E fuel vm e rest = rest .normal vm' e') ∧
      vm'.state.cycleCount = 9219 ∧ Ready vm'.resetCpuForReuse := by
  obtain ⟨x, hx, hstop, hcount, hloaded⟩ := workload_run E h hfuel e
  refine ⟨x.machine.vm, x.machine.env, fun rest => ?_, hcount, ⟨rfl, hloaded⟩⟩
  unfold runThen
  rw [hx]
  simp only [hstop]

/-- The timed phase: run after run of 9219 cycles. -/
theorem timed_ready (E : Env ε) {fuel : Nat} (hfuel : 9219 ≤ fuel)
    (rest : List (HaltReason × UInt64) → VM → Option Outcome) (n : Nat)
    (runs : List (HaltReason × UInt64)) {vm : VM} (h : Ready vm.resetCpuForReuse)
    (hlast : vm.state.cycleCount = 9219) (e : ε) :
    ∃ vm', vm'.state.cycleCount = 9219 ∧
      timed E fuel rest n runs vm e =
        rest (runs ++ List.replicate n (.normal, 9219)) vm' := by
  induction n generalizing runs vm e with
  | zero => exact ⟨vm, hlast, by rw [timed, List.replicate_zero, List.append_nil]⟩
  | succ n ih =>
    obtain ⟨vm', e', hrun, hcount, hready⟩ := runThen_ready E h hfuel e
    obtain ⟨vm'', hcount', htimed⟩ := ih (runs ++ [(.normal, 9219)]) hready hcount e'
    refine ⟨vm'', hcount', ?_⟩
    rw [timed, hrun, hcount, htimed, List.append_assoc]
    rfl

end Runs

/-- Neither benchmark refuses, and the `n` timed runs all retire 9219 instructions. -/
theorem measure_eq {ε : Type} (E : Env ε) {fuel : Nat} (hfuel : 9219 ≤ fuel) (nIters : Nat) (e : ε)
    (ops : UInt64 → VM → UInt64) :
    ∃ vm, vm.state.cycleCount = 9219 ∧ measure E fuel nIters e ops =
      some (.measured 9219 (ops 9219 vm) (List.replicate nIters (.normal, 9219))) := by
  have hboot := @boot_of_le (imageOf workload) (by decide)
  have hready : Ready { VM.init with mem := fun a => (imageOf workload).getD a 0 } :=
    ⟨rfl, loaded_image⟩
  obtain ⟨vm1, e1, hsanity, hcycles, hready1⟩ := runThen_ready E hready hfuel e
  obtain ⟨vm2, e2, hwarmup, hcycles2, hready2⟩ := runThen_ready E hready1 hfuel e1
  obtain ⟨vm, hcount, htimed⟩ := timed_ready E hfuel
    (fun runs vm => some (.measured 9219 (ops 9219 vm) runs)) nIters [] hready2 hcycles2 e2
  refine ⟨vm, hcount, ?_⟩
  unfold measure
  rw [hboot]
  simp only
  rw [hsanity, if_neg (by decide), hcycles, if_neg (by decide), hwarmup, htimed, List.nil_append]

/-- A benchmark that printed, having run the workload `nIters` times to its `HALT`, and divided by
what those runs retired. -/
def Honest (nIters : Nat) (out : Option Outcome) : Prop :=
  ∃ totalOps runs, out = some (.measured 9219 totalOps runs) ∧ runs.length = nIters ∧
    (∀ run ∈ runs, run.1 = .normal) ∧ totalOps = (runs.map (·.2)).sum

theorem sum_replicate_cycles (n : Nat) :
    (List.replicate n (9219 : UInt64)).sum = 9219 * UInt64.ofNat n := by
  induction n with
  | zero => rfl
  | succ n ih =>
    rw [List.replicate_succ, List.sum_cons, ih, UInt64.ofNat_add, UInt64.mul_add, UInt64.add_comm]
    rfl

theorem honest_of_replicate {nIters : Nat} {out : Option Outcome}
    (h : out = some (.measured 9219 (9219 * UInt64.ofNat nIters)
      (List.replicate nIters (.normal, 9219)))) : Honest nIters out := by
  refine ⟨_, _, h, List.length_replicate, fun run hrun => ?_, ?_⟩
  · rw [(List.mem_replicate.mp hrun).2]
  · rw [List.map_replicate, sum_replicate_cycles]

/-- **The number the time is divided by is the number of instructions timed.** With fuel for a run,
neither benchmark refuses to print, for any number of iterations and in either dispatch mode: all
timed runs halt normally, and the divisor is the sum of what they retired. -/
theorem benchmark_counts_every_op (stdin rng : Nat → UInt32) (nIters fuel : Nat)
    (hfuel : 9219 ≤ fuel) :
    Honest nIters (cmdBenchmark stdin rng fuel nIters) ∧
      ∀ mode, Honest nIters (runMode stdin rng fuel nIters mode) := by
  constructor
  · obtain ⟨vm, -, hout⟩ := measure_eq (hostEnv stdin rng .computedGoto) hfuel nIters (0, 0)
      fun cyclesPerRun _ => cyclesPerRun * UInt64.ofNat nIters
    exact honest_of_replicate hout
  · intro mode
    obtain ⟨vm, hcount, hout⟩ := measure_eq (hostEnv stdin rng mode) hfuel nIters (0, 0)
      fun _ vm => vm.state.cycleCount * UInt64.ofNat nIters
    rw [hcount] at hout
    exact honest_of_replicate hout

/-- A thousand iterations. -/
theorem benchmark_counts_every_op_thousand :
    Honest 1000 (cmdBenchmark (fun _ => 0) (fun _ => 0) 10000 1000) :=
  (benchmark_counts_every_op _ _ 1000 10000 (by decide)).1

end Bench

end RetroVM

import RetroVM.Bench.Rewind
import RetroVM.Engine.Words
import Mathlib.Tactic.IntervalCases

/-!
# The workload of the benchmarks (`main.cpp`, `kBenchmarkLoopCount`)

Two instructions that load the counter `R0` and its step `R1`, a loop of nine that counts `R0` down,
and a `HALT`. `At p v` is the state in front of instruction `p` with `v` left on the counter, and
`left p v` the fetches from there to the end, the one of the `HALT` included. Whatever the sink and
the snapshot interval, a turn that dispatches takes one off `left`.

Results:
* `effect_at`: what each instruction does.
* `Going.turn`, `Going.halt`: a turn in the loop, and the last one.
* **`Going.leaves`**: the workload runs to its `HALT`.
-/

namespace RetroVM

namespace Bench

variable {ε : Type}

/-- `kBenchmarkLoopCount`. -/
def kBenchmarkLoopCount : UInt32 := 1024

/-- The synthetic workload. -/
def workload : List UInt32 := [
  encode Opcode.opLi.code 0 0 kBenchmarkLoopCount,
  encode Opcode.opLi.code 1 0 1,
  encode Opcode.opAdd.code 2 1 0,
  encode Opcode.opAdd.code 3 1 0,
  encode Opcode.opSub.code 4 0 0,
  encode Opcode.opMul.code 5 1 0,
  encode Opcode.opDiv.code 6 1 0,
  encode Opcode.opStore.code 2 0 0x100,
  encode Opcode.opLoad.code 7 0 0x100,
  encode Opcode.opSub.code 0 1 0,
  encode Opcode.opJnz.code 0 0 0x08,
  encode Opcode.opHalt.code 0 0 0]

/-- Its instructions. -/
def listing : List Instr := [.li 0 1024, .li 1 1, .alu .add 2 1, .alu .add 3 1, .alu .sub 4 0,
  .alu .mul 5 1, .div 6 1, .store 2 0x100, .load 7 0x100, .alu .sub 0 1, .jnz 0 8, .halt]

theorem decode_workload : workload.map decode = listing.map some := by decide

/-! ## Where the workload stands -/

/-- The workload is in memory. -/
def Loaded (mem : Memory) : Prop :=
  ∀ (p : Nat) (h : p < 12), memLoadU32 mem (UInt32.ofNat (4 * p)) = workload[p]

/-- In front of instruction `p`, with `v` on the counter. -/
structure At (p v : Nat) (c : Cpu) (mem : Memory) : Prop where
  pc      : c.pc = UInt32.ofNat (4 * p)
  counter : 1 ≤ p → c.regs.get 0 = UInt32.ofNat v
  one     : 2 ≤ p → c.regs.get 1 = 1
  loaded  : Loaded mem

/-- The counter the loop can have in front of instruction `p`. -/
structure Valid (p v : Nat) : Prop where
  position : p ≤ 11
  counter  : v ≤ 1024
  inside   : 1 ≤ p → p ≤ 9 → 1 ≤ v
  first    : p = 1 → v = 1024

/-- The fetches left, the one of the `HALT` included. -/
def left (p v : Nat) : Nat :=
  if p = 0 then 9219 else if p = 11 then 1 else if p = 10 then 9 * v + 2 else 9 * v + 3 - p

/-- Where instruction `p` leads. -/
def next (p v : Nat) : Nat × Nat :=
  if p = 0 then (1, 1024)
  else if p = 9 then (10, v - 1)
  else if p = 10 then if v = 0 then (11, v) else (2, v)
  else (p + 1, v)

/-- Every instruction but the last takes one off what is left. -/
theorem left_next {p v : Nat} (h : Valid p v) (hp : p < 11) :
    Valid (next p v).1 (next p v).2 ∧ left p v = left (next p v).1 (next p v).2 + 1 := by
  obtain ⟨-, hv, hin, -⟩ := h
  unfold next
  split
  · next hp0 => exact ⟨⟨by omega, by omega, by omega, by omega⟩, by rw [hp0]; rfl⟩
  split
  · next hp9 =>
    have hpos := hin (by omega) (by omega)
    refine ⟨⟨by omega, by omega, by omega, by omega⟩, ?_⟩
    simp [left, hp9]
    omega
  split
  · next hp10 =>
    split
    · next hzero => exact ⟨⟨by omega, by omega, by omega, by omega⟩, by simp [left, hp10, hzero]⟩
    · next hpos =>
      refine ⟨⟨by omega, by omega, by omega, by omega⟩, ?_⟩
      simp [left, hp10]
  · next hp0 hp9 hp10 =>
    have hpos := hin (by omega) (by omega)
    refine ⟨⟨by omega, by omega, by omega, by omega⟩, ?_⟩
    rw [left, if_neg hp0, if_neg (by omega), if_neg hp10, left, if_neg (by omega),
      if_neg (by omega), if_neg (by omega)]
    omega

/-- Only in front of the `HALT` one fetch is left. -/
theorem left_pos {p v : Nat} (h : Valid p v) : 1 ≤ left p v ∧ (left p v = 1 ↔ p = 11) := by
  obtain ⟨hp, hv, hin, -⟩ := h
  unfold left
  split
  · omega
  split
  · omega
  split
  · omega
  · have hpos := hin (by omega) (by omega)
    omega

/-! ## Instructions -/

section Instructions

variable {p v : Nat} {c : Cpu} {mem : Memory}

/-- A fetch moves pc on. -/
def fetch (c : Cpu) : Cpu := { c with pc := c.pc + 4 }

theorem At.pc_fetch (h : At p v c mem) : (fetch c).pc = UInt32.ofNat (4 * (p + 1)) := by
  change c.pc + 4 = _
  rw [h.pc, Nat.mul_succ, UInt32.ofNat_add]
  rfl

/-- An instruction that leaves `R0` and `R1` alone. -/
theorem At.passed (h : At p v c mem) (hp : 2 ≤ p) {regs : Vector UInt32 8} {flags : UInt32}
    (h0 : regs.get 0 = c.regs.get 0) (h1 : regs.get 1 = c.regs.get 1) :
    At (p + 1) v ⟨regs, (fetch c).pc, flags⟩ mem where
  pc := h.pc_fetch
  counter _ := h0.trans (h.counter (by omega))
  one _ := h1.trans (h.one hp)
  loaded := h.loaded

/-- The next instruction is skipped over by a fetch alone. -/
theorem At.skipped (h : At p v c mem) (hp : 2 ≤ p) : At (p + 1) v (fetch c) mem :=
  h.passed hp rfl rfl

/-- An instruction that writes neither `R0` nor `R1` passes the counters on. -/
theorem At.computed (h : At p v c mem) (hp : 2 ≤ p) {dst : Fin 8} (h0 : dst ≠ 0) (h1 : dst ≠ 1)
    (x flags : UInt32) :
    At (p + 1) v { fetch c with regs := assign c.regs dst x, flags := flags } mem :=
  h.passed hp (get_assign_ne c.regs x h0) (get_assign_ne c.regs x h1)

/-- **What each instruction does**: it goes on with the next one, or writes to `0x100` and does. -/
theorem effect_at (h : At p v c mem) (hv : Valid p v) (hp : p < 11) (hlt : p < listing.length) :
    (∃ c', listing[p].effect mem (fetch c) = .next c' ∧
      At (next p v).1 (next p v).2 c' mem) ∨
    (∃ x, listing[p].effect mem (fetch c) = .write 0x100 x ∧
      At (next p v).1 (next p v).2 (fetch c) mem) := by
  interval_cases p
  · -- `LI R0, 1024`
    refine .inl ⟨_, rfl, ⟨h.pc_fetch, fun _ => get_assign_self _ 0 1024, ?_, h.loaded⟩⟩
    exact fun (h2 : 2 ≤ 1) => absurd h2 (by decide)
  · -- `LI R1, 1`
    refine .inl ⟨_, rfl, ⟨h.pc_fetch, fun _ => ?_, fun _ => ?_, h.loaded⟩⟩
    · exact (get_assign_ne _ 1 (by decide)).trans (h.counter (by decide))
    · exact get_assign_self _ 1 1
  · -- `ADD R2, R1`
    exact .inl ⟨_, rfl, h.computed (by decide) (by decide) (by decide) _ _⟩
  · -- `ADD R3, R1`
    exact .inl ⟨_, rfl, h.computed (by decide) (by decide) (by decide) _ _⟩
  · -- `SUB R4, R0`
    exact .inl ⟨_, rfl, h.computed (by decide) (by decide) (by decide) _ _⟩
  · -- `MUL R5, R1`
    exact .inl ⟨_, rfl, h.computed (by decide) (by decide) (by decide) _ _⟩
  · -- `DIV R6, R1`: `R1` is 1
    have hone : ¬ c.regs.get 1 = 0 := by
      rw [h.one (by decide)]
      decide
    exact .inl ⟨_, if_neg hone, h.computed (by decide) (by decide) (by decide) _ _⟩
  · -- `STORE R2, 0x100`
    exact .inr ⟨_, rfl, h.skipped (by decide)⟩
  · -- `LOAD R7, 0x100`
    exact .inl ⟨_, rfl, h.computed (by decide) (by decide) (by decide) _ _⟩
  · -- `SUB R0, R1` counts down
    have hpos := hv.inside (by decide) (by decide)
    have hcount : c.regs.get 0 - c.regs.get 1 = UInt32.ofNat (v - 1) := by
      rw [h.counter (by decide), h.one (by decide)]
      exact (UInt32.ofNat_sub hpos).symm
    refine .inl ⟨_, rfl, ⟨h.pc_fetch, fun _ => ?_, fun _ => ?_, h.loaded⟩⟩
    · exact (get_assign_self _ 0 _).trans hcount
    · exact (get_assign_ne _ _ (by decide)).trans (h.one (by decide))
  · -- `JNZ R0, 8` goes back to the top of the loop, or on to the `HALT`
    have hcount := h.counter (by decide)
    refine .inl ⟨_, rfl, ?_⟩
    change At (if v = 0 then (11, v) else (2, v)).1 (if v = 0 then (11, v) else (2, v)).2
      (if c.regs.get 0 ≠ 0 then { fetch c with pc := 8 } else fetch c) mem
    by_cases hzero : v = 0
    · have hr : c.regs.get 0 = 0 := by rw [hcount, hzero]; rfl
      rw [if_pos hzero, if_neg (not_not.mpr hr)]
      exact h.skipped (by decide)
    · have hr : c.regs.get 0 ≠ 0 := by
        rw [hcount]
        intro he
        have hnat := congrArg UInt32.toNat he
        rw [UInt32.toNat_ofNat_of_lt' (Nat.lt_of_le_of_lt hv.counter (by decide))] at hnat
        exact hzero hnat
      rw [if_neg hzero, if_pos hr]
      exact ⟨rfl, fun _ => hcount, fun _ => h.one (by decide), h.loaded⟩

end Instructions

/-! ## Memory -/

/-- The cell the workload writes is none of its own. -/
theorem Loaded.store {mem : Memory} (h : Loaded mem) (x : UInt32) :
    Loaded (memStoreU32 mem 0x100 x) := by
  intro p hp
  have hlt : p < 12 := hp
  rw [← h p hp]
  refine memLoadU32_congr fun a ha => ?_
  rw [memStoreU32_eq]
  exact pokeU32_of_notMem (cells_apart (q := 0x100) (by omega) (by decide) ha)

theorem loaded_image : Loaded (fun a => (imageOf workload).getD a 0) :=
  fun _ hp => fetch_imageOf (by decide) hp

/-! ## Turns -/

/-- A machine on which the workload has `n` fetches left. -/
def Going (n : Nat) (m : Machine ε) : Prop :=
  ∃ p v, Valid p v ∧ left p v = n ∧ At p v m.state.cpu m.mem

section Turns

variable {E : Env ε} {m u : Machine ε} {n : Nat}

/-- A fetch that does not leave the loop moves the clock and the closures only. -/
theorem snapTick_cpu (h : m.snapTick E = .ok u) :
    u.state.cpu = m.state.cpu ∧ u.mem = m.mem := by
  have hfired := fired_frame E m.tick
  rcases snapTick_cases E m with ⟨-, ht⟩ | ⟨-, -, ht⟩ | ⟨-, -, -, ht⟩ | ⟨-, -, -, ht⟩
  · cases ht.symm.trans h
    exact ⟨rfl, rfl⟩
  · cases ht.symm.trans h
    exact ⟨rfl, rfl⟩
  · cases ht.symm.trans h
    refine ⟨?_, hfired.2.1⟩
    rw [hfired.1]
    rfl
  · cases ht.symm.trans h

/-- The word fetched in front of instruction `p`. -/
theorem At.decode {p v : Nat} (h : At p v m.state.cpu m.mem) (hp : p < listing.length) :
    RetroVM.decode m.fetched = some listing[p] := by
  have hlength : p < workload.length := hp
  have hfetch : m.fetched = workload[p] := by
    unfold Machine.fetched
    rw [show m.state.pc = UInt32.ofNat (4 * p) from h.pc]
    exact h.loaded p hp
  have hlist := congrArg (fun l => l[p]?) decode_workload
  simp only [List.getElem?_map, List.getElem?_eq_getElem (show p < workload.length from hp),
    List.getElem?_eq_getElem hp, Option.map_some] at hlist
  rw [hfetch]
  exact Option.some.inj hlist

/-- A turn in front of instruction `p` carries it out. -/
theorem At.cycle {p v : Nat} (h : At p v m.state.cpu m.mem) (hp : p < listing.length)
    (hu : m.advance.snapTick E = .ok u) :
    m.cycle E = (u.dispatched m.fetched).apply E (listing[p].effect m.mem (fetch m.state.cpu)) := by
  obtain ⟨hcpu, hmem⟩ := snapTick_cpu hu
  have hfetch : u.state.cpu = fetch m.state.cpu := hcpu
  have hmem' : u.mem = m.mem := hmem
  unfold Machine.cycle
  rw [hu]
  unfold Machine.retire
  rw [h.decode hp]
  simp only [hfetch, hmem']

/-- **A turn in the loop** takes one off what is left. -/
theorem Going.turn (h : Going (n + 2) m) (hu : m.advance.snapTick E = .ok u) :
    ∃ m', m.cycle E = .ok m' ∧ Going (n + 1) m' ∧ m'.env = u.env := by
  obtain ⟨p, v, hv, hleft, hat⟩ := h
  obtain ⟨hcpu, hmem⟩ := snapTick_cpu hu
  have hp : p < 11 := by
    have hpos := left_pos hv
    have hle := hv.position
    omega
  have hlt : p < listing.length := Nat.lt_succ_of_lt hp
  obtain ⟨hv', hleft'⟩ := left_next hv hp
  have hcycle := hat.cycle hlt hu
  rcases effect_at hat hv hp hlt with ⟨c', he, hat'⟩ | ⟨x, he, hat'⟩
  · rw [he] at hcycle
    refine ⟨(u.dispatched m.fetched).setState (u.state.setCpu c'), hcycle,
      ⟨_, _, hv', by omega, ?_⟩, rfl⟩
    rw [← show u.mem = m.mem from hmem] at hat'
    exact hat'
  · rw [he] at hcycle
    refine ⟨{ u.dispatched m.fetched with vm := u.vm.store 0x100 x }, hcycle,
      ⟨_, _, hv', by omega, ?_⟩, rfl⟩
    rw [← show u.state.cpu = fetch m.state.cpu from hcpu] at hat'
    refine { hat' with loaded := ?_ }
    change Loaded (memStoreU32 u.mem 0x100 x)
    rw [show u.mem = m.mem from hmem]
    exact hat'.loaded.store x

/-- **The last turn** is the `HALT`. -/
theorem Going.halt (h : Going 1 m) (hu : m.advance.snapTick E = .ok u) :
    ∃ x, m.cycle E = .error x ∧ x.stop = .returned .normal ∧
      x.machine.vm.deltas = u.vm.deltas := by
  obtain ⟨p, v, hv, hleft, hat⟩ := h
  obtain rfl := (left_pos hv).2.mp hleft
  exact ⟨_, hat.cycle (by decide) hu, rfl, rfl⟩

end Turns

/-! ## The whole run -/

section Run

variable {η : Type} {m : BenchVM η} {n : Nat}

theorem pause_off {d : Locals} (h : d.targetCycle = uint64Max) (cycle : UInt64) :
    d.pause cycle = none := if_neg fun ht => ht.1 h

/-- **The workload runs to its `HALT`**, whatever the interval, as long as no step boundary is set:
the last of the fetches left is the one of the `HALT`. -/
theorem Going.leaves (h : Going (n + 1) m) (hrun : m.state.halted = .running)
    (hoff : m.env.2.targetCycle = uint64Max) (hooks : IOHooks η) :
    ∃ u x, StepLoop.after (Machine.cycle (env hooks)) n m = .ok u ∧
      u.cycle (env hooks) = .error x ∧ x.stop = .returned .normal := by
  let P : Nat → BenchVM η → Prop := fun k u =>
    Going (k + 1) u ∧ u.state.halted = .running ∧ u.env.2.targetCycle = uint64Max
  have hround : ∀ k u, P (k + 1) u →
      ∃ u', StepLoop.after (Machine.cycle (env hooks)) 1 u = .ok u' ∧ P k u' := by
    rintro k u ⟨hgoing, hr, ht⟩
    obtain ⟨w, hw, htarget⟩ := tick_passes hooks hr (pause_off ht _)
    obtain ⟨u', hu', hgoing', henv⟩ := hgoing.turn hw
    refine ⟨u', by rw [StepLoop.after_one, hu'], hgoing', cycle_running hr hu', ?_⟩
    rw [henv, htarget, ht]
  obtain ⟨u, hu, hgoing, hr, ht⟩ := StepLoop.after_countdown hround n ⟨h, hrun, hoff⟩
  obtain ⟨w, hw, -⟩ := tick_passes hooks hr (pause_off ht _)
  obtain ⟨x, hx, hstop, -⟩ := hgoing.halt hw
  rw [Nat.mul_one] at hu
  exact ⟨u, x, hu, hx, hstop⟩

/-- A benchmark starts in front of its first instruction. -/
theorem exists_start (interval : UInt32) (e : η) :
    ∃ m : BenchVM η, start (imageOf workload) interval e = some m ∧ Going 9219 m ∧
      m.env.2.targetCycle = uint64Max ∧ m.state.cycleCount = 0 ∧
      m.state.snapInterval = interval ∧ m.state.snapTimer = interval ∧
      m.history = [] ∧ m.env.2.historyIndex = 0 := by
  have hboot := @boot_of_le (imageOf workload) (by decide)
  have hvalid : Valid 0 0 := ⟨by decide, by decide, by decide, by decide⟩
  refine ⟨_, congrArg (Option.map _) hboot, ⟨0, 0, hvalid, rfl, ?_⟩, rfl, rfl, rfl, rfl, rfl, rfl⟩
  exact ⟨rfl, fun h => absurd h (by decide), fun h => absurd h (by decide), loaded_image⟩

end Run

end Bench

end RetroVM

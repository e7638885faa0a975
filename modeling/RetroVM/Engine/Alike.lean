import RetroVM.Engine.Frame
import Mathlib.Order.BooleanAlgebra.Set

/-!
# Two machines alike

The simulation every comparison of two runs rests on. `Alike S R p p' m k` says that `m` and `k`
agree on everything an instruction can see but the bytes in `S`: registers, flags, pc, sp, cycle,
halt tag, and memory off `S`. The closures' states, of different types in general, are in relation
`R`. After the calls `p` and `p'`, which either made before, the calls made are the same. Snapshot
settings and the delta log are left free.

Results:
* `retire_alike`: an instruction that reads nothing in `S` and gets the same answers takes alike
  machines to alike machines, and what it writes leaves `S`.
* **`cycle_alike`**: the same for a whole cycle, one side of it with snapshots on and past its
  snapshot tick, the other with snapshots off.
-/

namespace RetroVM

variable {ε δ : Type}

/-! ## Footprints -/

/-- The bytes an instruction reads, its own fetch apart. -/
def Instr.reads : Instr → Set Addr
  | .load _ imm => cells imm
  | _ => ∅

/-- The bytes an instruction writes. -/
def Instr.writes : Instr → Set Addr
  | .store _ imm => cells imm
  | _ => ∅

/-- The bytes the next cycle of `m` reads, the fetch included. -/
def Machine.reads (m : Machine ε) : Set Addr :=
  cells m.state.pc ∪ ((decode m.fetched).elim ∅ Instr.reads)

/-- The bytes the next cycle of `m` writes. -/
def Machine.writes (m : Machine ε) : Set Addr := (decode m.fetched).elim ∅ Instr.writes

/-- **An effect depends on what the instruction reads only.** -/
theorem effect_congr {i : Instr} {mem mem' : Memory} (h : ∀ a ∈ i.reads, mem a = mem' a)
    (c : Cpu) : i.effect mem c = i.effect mem' c := by
  cases i with
  | load dst imm =>
    simp only [Instr.effect]
    rw [memLoadU32_congr h]
  | _ => rfl

/-! ## The relation -/

/-- The two sides got the same answers from their hooks. -/
structure Answers (R : ε → δ → Prop) (c : Consulted ε) (d : Consulted δ) : Prop where
  value  : c.value = d.value
  thrown : c.thrown = d.thrown
  calls  : c.calls = d.calls
  env    : R c.env d.env

/-- `m` and `k` look the same to every instruction that reads nothing in `S`. -/
structure Alike (S : Set Addr) (R : ε → δ → Prop) (p p' : List Call) (m : Machine ε)
    (k : Machine δ) : Prop where
  cpu        : m.state.cpu = k.state.cpu
  cycleCount : m.state.cycleCount = k.state.cycleCount
  sp         : m.state.sp = k.state.sp
  halted     : m.state.halted = k.state.halted
  mem        : ∀ a, a ∉ S → m.mem a = k.mem a
  env        : R m.env k.env
  calls      : p ++ calls m.history = p' ++ calls k.history

/-- Two VMs agree on everything a program can see. -/
structure SameVisible (a b : VM) : Prop where
  regs       : a.state.regs = b.state.regs
  pc         : a.state.pc = b.state.pc
  sp         : a.state.sp = b.state.sp
  flags      : a.state.flags = b.state.flags
  cycleCount : a.state.cycleCount = b.state.cycleCount
  halted     : a.state.halted = b.state.halted
  mem        : a.mem = b.mem

theorem SameVisible.of_state {a b : VM} (h : a.state = b.state) (hmem : a.mem = b.mem) :
    SameVisible a b := by
  refine ⟨?_, ?_, ?_, ?_, ?_, ?_, hmem⟩ <;> rw [h]

theorem SameVisible.symm {a b : VM} (h : SameVisible a b) : SameVisible b a :=
  ⟨h.regs.symm, h.pc.symm, h.sp.symm, h.flags.symm, h.cycleCount.symm, h.halted.symm, h.mem.symm⟩

theorem SameVisible.trans {a b c : VM} (h : SameVisible a b) (h' : SameVisible b c) :
    SameVisible a c :=
  ⟨h.regs.trans h'.regs, h.pc.trans h'.pc, h.sp.trans h'.sp, h.flags.trans h'.flags,
    h.cycleCount.trans h'.cycleCount, h.halted.trans h'.halted, h.mem.trans h'.mem⟩

/-- Two runs ended alike. -/
structure AlikeExit (S : Set Addr) (R : ε → δ → Prop) (p p' : List Call) (x : Exit ε)
    (y : Exit δ) : Prop where
  stop    : x.stop = y.stop
  machine : Alike S R p p' x.machine y.machine

theorem Answers.imp {R R' : ε → δ → Prop} {c : Consulted ε} {d : Consulted δ} (h : Answers R c d)
    (hR : ∀ e e', R e e' → R' e e') : Answers R' c d :=
  { h with env := hR _ _ h.env }

/-- A sink's own state does not show in what the hooks answer, and they leave it alone. -/
theorem beside_answers {η ς : Type} (hooks : IOHooks η) (q : Query) (cycle : UInt64) (io : η)
    (sn : ς) :
    Answers (fun (e : η × ς) io => e = (io, sn)) (consult (hooks.beside ς) q cycle (io, sn))
      (consult hooks q cycle io) := by
  have hq : (hooks.beside ς).query q =
      (hooks.query q).map fun f cycle e => ((f cycle e.1).1, ((f cycle e.1).2, e.2)) := by
    cases q <;> rfl
  unfold consult
  rw [hq]
  cases hooks.query q with
  | none => exact ⟨rfl, rfl, rfl, rfl⟩
  | some f =>
    simp only [Option.map_some]
    rcases hf : f cycle io with ⟨e | v, io'⟩
    · simp only
      exact ⟨rfl, rfl, rfl, rfl⟩
    · simp only [IOHooks.beside]
      cases hooks.onNondeterministic with
      | none => exact ⟨rfl, rfl, rfl, rfl⟩
      | some observe =>
        simp only [Option.map_some]
        rcases ho : observe cycle q.byte v io' with ⟨e | u, io''⟩ <;>
          exact ⟨rfl, rfl, rfl, rfl⟩

/-- **Instructions leave a sink's own state alone.** -/
theorem retire_beside {η ς : Type} (hooks : IOHooks η) (sink : Option (SnapshotSink (η × ς)))
    (mode : DispatchMode) (instr : UInt32) (m : Machine (η × ς)) :
    (landed (m.retire ⟨hooks.beside ς, sink, mode⟩ instr)).env.2 = m.env.2 := by
  by_cases hask : ∃ q dst, decode instr = some (.ask q dst)
  · obtain ⟨q, dst, hd⟩ := hask
    rw [retire_ask hd, landed_receive, received_env]
    have henv := congrArg Prod.snd
      (beside_answers hooks q m.state.cycleCount m.env.1 m.env.2).env
    exact henv
  · exact congrArg Prod.snd
      (retire_quiet ⟨hooks.beside ς, sink, mode⟩ m fun q dst hd => hask ⟨q, dst, hd⟩).1

section Alike

variable {S : Set Addr} {R : ε → δ → Prop} {p p' : List Call} {m : Machine ε} {k : Machine δ}

/-- Machines alike with nothing stale look the same to a program. -/
theorem Alike.sameVisible (h : Alike ∅ R p p' m k) : SameVisible m.vm k.vm where
  regs := congrArg Cpu.regs h.cpu
  pc := congrArg Cpu.pc h.cpu
  sp := h.sp
  flags := congrArg Cpu.flags h.cpu
  cycleCount := h.cycleCount
  halted := h.halted
  mem := funext fun a => h.mem a (Set.notMem_empty a)

theorem Alike.pc (h : Alike S R p p' m k) : m.state.pc = k.state.pc := congrArg Cpu.pc h.cpu

/-- Alike machines stay alike when fewer bytes are known to be stale, provided they agree on the
rest. -/
theorem Alike.mono {T : Set Addr} (h : Alike S R p p' m k) (hST : S ⊆ T) : Alike T R p p' m k :=
  { h with mem := fun a ha => h.mem a fun hs => ha (hST hs) }

theorem Alike.advance (h : Alike S R p p' m k) : Alike S R p p' m.advance k.advance where
  cpu := by
    have hc := h.cpu
    simp only [VMState.cpu, Cpu.mk.injEq] at hc
    simp [VMState.cpu, hc]
  cycleCount := by simp [h.cycleCount]
  sp := h.sp
  halted := h.halted
  mem := h.mem
  env := h.env
  calls := h.calls

/-- Machines that agree on the fetched bytes fetch the same word. -/
theorem Alike.fetched (h : Alike S R p p' m k) (hf : ∀ a ∈ cells m.state.pc, a ∉ S) :
    m.fetched = k.fetched := by
  unfold Machine.fetched
  rw [← h.pc]
  exact memLoadU32_congr fun a ha => h.mem a (hf a ha)

theorem Alike.dispatched (h : Alike S R p p' m k) (instr : UInt32) :
    Alike S R p p' (m.dispatched instr) (k.dispatched instr) :=
  { h with
    calls := by
      have hpc := h.pc
      have hcycle := h.cycleCount
      simp only [dispatched_history, calls_append, calls_call, ← List.append_assoc, h.calls, hpc,
        hcycle] }

theorem Alike.setHalted (h : Alike S R p p' m k) (r : HaltReason) :
    Alike S R p p' (m.setHalted r) (k.setHalted r) :=
  { h with halted := rfl }

theorem Alike.setCpu (h : Alike S R p p' m k) (c : Cpu) :
    Alike S R p p' (m.setState (m.state.setCpu c)) (k.setState (k.state.setCpu c)) :=
  { h with cpu := rfl }

/-- A store at both sides: whatever was stale under it is stale no more. -/
theorem Alike.store (h : Alike S R p p' m k) (addr v : UInt32) :
    Alike (S \ cells addr) R p p' { m with vm := m.vm.store addr v }
      { k with vm := k.vm.store addr v } :=
  { h with
    mem := fun a ha => by
      change memStoreU32 m.mem addr v a = memStoreU32 k.mem addr v a
      rw [memStoreU32_eq, memStoreU32_eq]
      by_cases hc : a ∈ cells addr
      · exact pokeU32_of_mem _ _ hc
      · rw [pokeU32_of_notMem hc, pokeU32_of_notMem hc]
        exact h.mem a fun hs => ha ⟨hs, hc⟩ }

theorem Alike.received (h : Alike S R p p' m k) (dst : Fin 8) {c : Consulted ε}
    {d : Consulted δ} (ha : Answers R c d) :
    Alike S R p p' (m.received dst c) (k.received dst d) where
  cpu := by rw [received_cpu, received_cpu, h.cpu, ha.value]
  cycleCount := by
    rw [(received_frame m dst c).cycleCount, (received_frame k dst d).cycleCount, h.cycleCount]
  sp := by rw [(received_frame m dst c).sp, (received_frame k dst d).sp, h.sp]
  halted := by rw [received_halted, received_halted, h.halted]
  mem := by
    rw [Machine.mem, Machine.mem, received_mem, received_mem]
    exact h.mem
  env := by
    rw [received_env, received_env]
    exact ha.env
  calls := by
    rw [received_history, received_history, calls_append, calls_append, calls_map_call,
      calls_map_call, ← List.append_assoc, h.calls, ha.calls, List.append_assoc]

/-! ## Instructions and cycles -/

/-- The same effect, with the same answers, carried out at both sides. -/
theorem apply_alike {E : Env ε} {F : Env δ} (h : Alike S R p p' m k) (e : Effect)
    (hask : ∀ q dst, e = .ask q dst →
      Answers R (consult E.hooks q m.state.cycleCount m.env)
        (consult F.hooks q k.state.cycleCount k.env)) :
    StepLoop.Matched (Alike S R p p') (AlikeExit S R p p') (m.apply E e) (k.apply F e) := by
  cases e with
  | next c => exact .ok (h.setCpu c)
  | write addr v => exact .ok ((h.store addr v).mono Set.sdiff_subset)
  | stop c r => exact .error ⟨rfl, (h.setCpu c).setHalted r⟩
  | ask q dst =>
    have hans := hask q dst rfl
    have hrec := h.received dst hans
    unfold Machine.apply Machine.receive
    simp only [← hans.thrown]
    cases (consult E.hooks q m.state.cycleCount m.env).thrown with
    | none => exact .ok hrec
    | some e => exact .error ⟨rfl, hrec⟩

/-- **An instruction that reads nothing stale takes alike machines to alike machines**: it goes
on, traps, halts or throws at both, and what it writes is stale no more. -/
theorem retire_alike {E : Env ε} {F : Env δ} {instr : UInt32} (h : Alike S R p p' m k)
    (hreads : ∀ a ∈ (decode instr).elim ∅ Instr.reads, a ∉ S)
    (hask : ∀ q dst, decode instr = some (.ask q dst) →
      Answers R (consult E.hooks q m.state.cycleCount m.env)
        (consult F.hooks q k.state.cycleCount k.env)) :
    StepLoop.Matched (Alike (S \ (decode instr).elim ∅ Instr.writes) R p p')
      (AlikeExit (S \ (decode instr).elim ∅ Instr.writes) R p p')
      (m.retire E instr) (k.retire F instr) := by
  unfold Machine.retire
  cases hd : decode instr with
  | none =>
    refine .error ⟨rfl, ?_⟩
    rw [Option.elim_none, Set.sdiff_empty]
    exact h.setHalted _
  | some i =>
    rw [hd] at hreads hask
    have hdisp := h.dispatched instr
    have heff : i.effect k.mem k.state.cpu = i.effect m.mem m.state.cpu := by
      rw [← h.cpu]
      exact (effect_congr (fun a ha => h.mem a (hreads a ha)) _).symm
    have happly := apply_alike (E := E) (F := F) hdisp (i.effect m.mem m.state.cpu)
      fun q dst he => hask q dst (congrArg some (ask_of_effect he))
    simp only [Option.elim_some, heff]
    cases i with
    | store dst imm => exact .ok (hdisp.store imm _)
    | _ =>
      simp only [Instr.writes, Set.sdiff_empty]
      exact happly

/-- A passed snapshot tick at one side goes unseen, if it leaves the closures in relation. -/
theorem Alike.snapTick {E : Env ε} {m' : Machine ε} (h : Alike S R p p' m k)
    (hr : m.state.halted = .running) (hm : m.snapTick E = .ok m') (henv : R m'.env k.env) :
    Alike S R p p' m' k := by
  have hrun := snapTick_running hr hm
  rcases snapTick_cases E m with ⟨-, ht⟩ | ⟨-, -, ht⟩ | ⟨-, -, -, ht⟩ | ⟨-, -, -, ht⟩
  · obtain rfl : m = m' := Except.ok.inj (ht.symm.trans hm)
    exact h
  · obtain rfl : m.tick = m' := Except.ok.inj (ht.symm.trans hm)
    exact { h with env := henv }
  · obtain rfl : m.tick.fired E = m' := Except.ok.inj (ht.symm.trans hm)
    obtain ⟨hstate, hmem, -, hcalls⟩ := fired_frame E m.tick
    refine ⟨?_, ?_, ?_, ?_, ?_, henv, ?_⟩
    · rw [hstate]
      exact h.cpu
    · rw [hstate]
      exact h.cycleCount
    · rw [hstate]
      exact h.sp
    · rw [hrun, ← h.halted, hr]
    · rw [hmem]
      exact h.mem
    · rw [hcalls]
      exact h.calls
  · rw [ht] at hm
    cases hm

/-- **A cycle takes alike machines to alike machines.** `k` has snapshots off; `m` may have them
on, its tick passed and left it at `m'`. -/
theorem cycle_alike {E : Env ε} {F : Env δ} {m' : Machine ε} (h : Alike S R p p' m k)
    (hr : m.state.halted = .running) (hk : k.state.snapInterval = 0)
    (hm : m.advance.snapTick E = .ok m') (henv : R m'.env k.env)
    (hreads : ∀ a ∈ m.reads, a ∉ S)
    (hask : ∀ q dst, decode m.fetched = some (.ask q dst) →
      Answers R (consult E.hooks q m'.state.cycleCount m'.env)
        (consult F.hooks q m'.state.cycleCount k.env)) :
    StepLoop.Matched (Alike (S \ m.writes) R p p') (AlikeExit (S \ m.writes) R p p')
      (m.cycle E) (k.cycle F) := by
  have hfetch : m.fetched = k.fetched := h.fetched fun a ha => hreads a (Or.inl ha)
  have h' : Alike S R p p' m' k.advance := h.advance.snapTick hr hm henv
  rw [cycle_off F hk, ← hfetch]
  unfold Machine.cycle
  rw [hm]
  refine retire_alike h' (fun a ha => hreads a (Or.inr ha)) fun q dst hd => ?_
  rw [← h'.cycleCount]
  exact hask q dst hd

end Alike

end RetroVM

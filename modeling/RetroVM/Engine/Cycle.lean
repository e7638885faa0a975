import RetroVM.Engine.ComputedGoto
import RetroVM.Engine.NaiveSwitch
import RetroVM.Lib.StepLoop

/-!
# One machine cycle

What both dispatch paths do, said once and without their control flow: the fetch advances pc and
cycle (`advance`), the snapshot timer ticks and may fire the sink (`snapTick`), the instruction is
decoded and its effect applied (`retire`). Everything above the engine reasons about `cycle`.

Results:
* `goto_turn_eq_cycle`, `switch_turn_eq_cycle`: each path, translated from its own copy of the
  source, is `cycle`; the `switch` path on a running machine.
* **`dispatch_paths_equivalent`**: after every number of turns, and on return or throw, the two
  paths agree on the VM, on the closures' state and on every call made.
-/

namespace RetroVM

variable {ε : Type}

/-! ## Instructions -/

/-- The three operations that cannot trap. -/
inductive Alu where
  | add | sub | mul
  deriving DecidableEq

/-- The two instructions that ask the hooks for a value. -/
inductive Query where
  | input | random
  deriving DecidableEq

/-- A decoded instruction. -/
inductive Instr where
  | halt
  | load (dst : Fin 8) (imm : UInt32)
  | store (dst : Fin 8) (imm : UInt32)
  | alu (op : Alu) (dst src : Fin 8)
  | div (dst src : Fin 8)
  | jump (imm : UInt32)
  | jnz (dst : Fin 8) (imm : UInt32)
  | ask (q : Query) (dst : Fin 8)
  | li (dst : Fin 8) (imm : UInt32)
  deriving DecidableEq

/-- The opcode of a query. -/
def Query.opcode : Query → Opcode
  | .input => .opIn
  | .random => .opRand

/-- Its number, as hooks and frames carry it. -/
def Query.byte (q : Query) : UInt8 := q.opcode.byte

/-- The hook a query goes to. -/
def IOHooks.query (hooks : IOHooks ε) : Query → Option (UInt64 → Hooked ε UInt32)
  | .input => hooks.inHook
  | .random => hooks.randHook

/-- The twelve opcodes. -/
def Opcode.all : List Opcode :=
  [.opHalt, .opLoad, .opStore, .opAdd, .opSub, .opMul,
   .opDiv, .opJump, .opJnz, .opIn, .opRand, .opLi]

/-- The opcode with a number, if there is one. -/
def Opcode.ofCode (op : UInt32) : Option Opcode := Opcode.all.find? fun o => o.code = op

/-- The instruction with opcode `o` and the operands of `instr`. -/
def Opcode.instr (o : Opcode) (instr : UInt32) : Instr :=
  match o with
  | .opHalt => .halt
  | .opLoad => .load (decodeDst instr) (decodeImm instr)
  | .opStore => .store (decodeDst instr) (decodeImm instr)
  | .opAdd => .alu .add (decodeDst instr) (decodeSrc instr)
  | .opSub => .alu .sub (decodeDst instr) (decodeSrc instr)
  | .opMul => .alu .mul (decodeDst instr) (decodeSrc instr)
  | .opDiv => .div (decodeDst instr) (decodeSrc instr)
  | .opJump => .jump (decodeImm instr)
  | .opJnz => .jnz (decodeDst instr) (decodeImm instr)
  | .opIn => .ask .input (decodeDst instr)
  | .opRand => .ask .random (decodeDst instr)
  | .opLi => .li (decodeDst instr) (decodeImm instr)

/-- The instruction a word encodes: `none` for an unknown opcode. -/
def decode (instr : UInt32) : Option Instr := (Opcode.ofCode (decodeOp instr)).map (·.instr instr)

theorem ofCode_code (o : Opcode) : Opcode.ofCode o.code = some o := by
  cases o <;> rfl

theorem ofCode_eq_none {op : UInt32} (h : ¬ op < opCount) : Opcode.ofCode op = none := by
  unfold Opcode.ofCode
  rw [List.find?_eq_none]
  intro o _ ho
  exact h (of_decide_eq_true ho ▸ code_lt_opCount o)

/-! ## Effects -/

/-- Flags of a result: `ZF` and `SF` from the result, `CF` as given. -/
def flagsOf (r : UInt32) (carry : Prop) [Decidable carry] : UInt32 :=
  let f := 0
  let f := if r = 0 then f ||| flagZF else f
  let f := if carry then f ||| flagCF else f
  if r &&& 0x80000000 ≠ 0 then f ||| flagSF else f

/-- Result and flags of an ALU operation. -/
def Alu.eval (op : Alu) (a b : UInt32) : UInt32 × UInt32 :=
  match op with
  | .add => (a + b, flagsOf (a + b) (a + b < a))
  | .sub => (a - b, flagsOf (a - b) (a < b))
  | .mul =>
    let p := a.toUInt64 * b.toUInt64
    (p.toUInt32, flagsOf p.toUInt32 (p > 0xFFFFFFFF))

/-- The part of the state instructions compute on. -/
structure Cpu where
  regs  : Vector UInt32 8
  pc    : UInt32
  flags : UInt32

/-- The part of `s` instructions compute on. -/
def VMState.cpu (s : VMState) : Cpu := ⟨s.regs, s.pc, s.flags⟩

/-- `s` with that part replaced. -/
def VMState.setCpu (s : VMState) (c : Cpu) : VMState :=
  { s with regs := c.regs, pc := c.pc, flags := c.flags }

/-- What an instruction does, hooks and memory writes still to be carried out. -/
inductive Effect where
  /-- Go on with these registers. -/
  | next (c : Cpu)
  /-- Log and overwrite the word at `addr`, and go on. -/
  | write (addr v : UInt32)
  /-- Ask the hooks, and go on with the answer in `dst`. -/
  | ask (q : Query) (dst : Fin 8)
  /-- Return from `run`. -/
  | stop (c : Cpu) (r : HaltReason)

/-- The effect of an instruction, fetched and counted. -/
def Instr.effect (i : Instr) (mem : Memory) (c : Cpu) : Effect :=
  match i with
  | .halt => .stop c .normal
  | .load dst imm => .next { c with regs := assign c.regs dst (memLoadU32 mem imm) }
  | .store dst imm => .write imm (c.regs.get dst)
  | .alu op dst src =>
    let r := op.eval (c.regs.get dst) (c.regs.get src)
    .next { c with regs := assign c.regs dst r.1, flags := r.2 }
  | .div dst src =>
    let a := c.regs.get dst
    let b := c.regs.get src
    if b = 0 then .stop { c with pc := c.pc - 4 } .divZero
    else .next { c with regs := assign c.regs dst (a / b), flags := flagsOf (a / b) False }
  | .jump imm => .next { c with pc := imm }
  | .jnz dst imm => .next (if c.regs.get dst ≠ 0 then { c with pc := imm } else c)
  | .ask q dst => .ask q dst
  | .li dst imm => .next { c with regs := assign c.regs dst imm }

/-- Log the old word at `addr` and overwrite it. -/
def VM.store (vm : VM) (addr v : UInt32) : VM :=
  { vm with
    mem := memStoreU32 vm.mem addr v
    deltas := ComputedGoto.logStore vm.mem vm.deltas addr }

/-- What asking the hooks came to: the value received, the exception thrown, if any, the state the
closures were left in, and the calls made. -/
structure Consulted (ε : Type) where
  value  : Option UInt32
  thrown : Option TraceMismatch
  env    : ε
  calls  : List Call

/-- Ask the hook, then tell the observer. -/
def consult (hooks : IOHooks ε) (q : Query) (cycle : UInt64) (env : ε) : Consulted ε :=
  match hooks.query q with
  | none => ⟨none, none, env, []⟩
  | some h =>
    match h cycle env with
    | (.error e, env) => ⟨none, some e, env, [.hook q.byte cycle]⟩
    | (.ok v, env) =>
      match hooks.onNondeterministic with
      | none => ⟨some v, none, env, [.hook q.byte cycle]⟩
      | some observe =>
        let calls := [.hook q.byte cycle, .observe cycle q.byte v]
        match observe cycle q.byte v env with
        | (.error e, env) => ⟨some v, some e, env, calls⟩
        | (.ok (), env) => ⟨some v, none, env, calls⟩

namespace Machine

/-- The machine once the hooks were asked: the value, if one came, is in `dst`. -/
def received (m : Machine ε) (dst : Fin 8) (c : Consulted ε) : Machine ε :=
  let m : Machine ε := { m with env := c.env, history := m.history ++ c.calls.map .call }
  match c.value with
  | none => m
  | some v => m.setReg dst v

/-- Receive what the hooks answered, or throw what they threw. -/
def receive (m : Machine ε) (dst : Fin 8) (c : Consulted ε) : Except (Exit ε) (Machine ε) :=
  match c.thrown with
  | none => .ok (m.received dst c)
  | some e => .error ⟨m.received dst c, .threw e⟩

/-- Carry out an effect. -/
def apply (E : Env ε) (m : Machine ε) : Effect → Except (Exit ε) (Machine ε)
  | .next c => .ok (m.setState (m.state.setCpu c))
  | .write addr v => .ok { m with vm := m.vm.store addr v }
  | .ask q dst => m.receive dst (consult E.hooks q m.state.cycleCount m.env)
  | .stop c r => .error ⟨(m.setState (m.state.setCpu c)).setHalted r, .returned r⟩

/-- Fetch the next instruction: pc and cycle move on. -/
def advance (m : Machine ε) : Machine ε :=
  m.setState { m.state with pc := m.state.pc + 4, cycleCount := m.state.cycleCount + 1 }

/-- The word the next cycle fetches. -/
def fetched (m : Machine ε) : UInt32 := memLoadU32 m.mem m.state.pc

/-- Count the snapshot timer down. -/
def tick (m : Machine ε) : Machine ε :=
  m.setState { m.state with snapTimer := m.state.snapTimer - 1 }

/-- Fire the sink and reload the timer. -/
def fired (E : Env ε) (m : Machine ε) : Machine ε :=
  let m := m.makeSnapshot E
  m.setState { m.state with snapTimer := m.state.snapInterval }

/-- The snapshot plumbing of one cycle. When the timer runs out the sink fires, and a halt it
requested leaves the loop. -/
def snapTick (E : Env ε) (m : Machine ε) : Except (Exit ε) (Machine ε) :=
  if m.state.snapInterval > 0 then
    if m.tick.state.snapTimer = 0 then
      if (m.tick.fired E).state.halted ≠ .running then
        .error ⟨m.tick.fired E, .returned (m.tick.fired E).state.halted⟩
      else .ok (m.tick.fired E)
    else .ok m.tick
  else .ok m

/-- Enter the handler of a fetched word. -/
def dispatched (m : Machine ε) (instr : UInt32) : Machine ε :=
  m.log (.dispatch m.state.cycleCount (m.state.pc - 4) instr)

/-- Decode a fetched word and carry it out. -/
def retire (E : Env ε) (instr : UInt32) (m : Machine ε) : Except (Exit ε) (Machine ε) :=
  match decode instr with
  | none => .error ⟨m.setHalted .unknownOp, .returned .unknownOp⟩
  | some i => (m.dispatched instr).apply E (i.effect m.mem m.state.cpu)

/-- One machine cycle. -/
def cycle (E : Env ε) (m : Machine ε) : Except (Exit ε) (Machine ε) :=
  match m.advance.snapTick E with
  | .error x => .error x
  | .ok m' => m'.retire E m.fetched

end Machine

/-- One turn of `VM::run`. -/
def turn (E : Env ε) : Machine ε → Except (Exit ε) (Machine ε) :=
  match E.dispatchMode with
  | .computedGoto => ComputedGoto.turn E
  | .naiveSwitch => NaiveSwitch.turn E

/-! ## Both paths are `cycle` -/

theorem askLabel_eq_receive (E : Env ε) (q : Query) (m : Machine ε)
    (o : ComputedGoto.Operands) :
    ComputedGoto.askLabel E (E.hooks.query q) q.opcode m o =
      m.receive o.dst (consult E.hooks q m.state.cycleCount m.env) := by
  unfold ComputedGoto.askLabel consult Machine.receive Machine.received
  cases E.hooks.query q with
  | none => simp
  | some h =>
    rcases ha : h m.state.cycleCount m.env with ⟨e | v, env⟩
    · simp [ha, Machine.log, Query.byte]
    · cases E.hooks.onNondeterministic with
      | none => simp [ha, Machine.log, Query.byte]
      | some observe =>
        rcases ho : observe m.state.cycleCount q.byte v env with ⟨e | u, env'⟩
        · simp only [Query.byte] at ho
          simp [ha, ho, Machine.log, Machine.setReg, Machine.setState, VM.setState, Query.byte]
        · simp only [Query.byte] at ho
          simp [ha, ho, Machine.log, Machine.setReg, Machine.setState, VM.setState, Query.byte]

theorem handler_eq_apply (E : Env ε) (m : Machine ε) (o : Opcode) (instr : UInt32)
    (h : o.code.toNat < 12) :
    ComputedGoto.handler E m ⟨decodeDst instr, decodeSrc instr, decodeImm instr⟩
        (ComputedGoto.dispatch.get ⟨o.code.toNat, h⟩) =
      m.apply E ((o.instr instr).effect m.mem m.state.cpu) := by
  cases o with
  | opDiv =>
    change ComputedGoto.labelDiv m _ = _
    by_cases hb : m.state.regs.get (decodeSrc instr) = 0
    · simp [ComputedGoto.labelDiv, Opcode.instr, Instr.effect, VMState.cpu, VMState.setCpu,
        Machine.apply, hb]
    · simp [ComputedGoto.labelDiv, Opcode.instr, Instr.effect, VMState.cpu, VMState.setCpu,
        Machine.apply, hb, flagsOf, Machine.setReg, Machine.setState, VM.setState]
  | opJnz =>
    change ComputedGoto.labelJnz m _ = _
    by_cases hz : m.state.regs.get (decodeDst instr) = 0
    · simp [ComputedGoto.labelJnz, Opcode.instr, Instr.effect, VMState.cpu, VMState.setCpu,
        Machine.apply, hz, Machine.setState, VM.setState]
    · simp [ComputedGoto.labelJnz, Opcode.instr, Instr.effect, VMState.cpu, VMState.setCpu,
        Machine.apply, hz]
  | opIn => exact askLabel_eq_receive E .input m _
  | opRand => exact askLabel_eq_receive E .random m _
  | _ => rfl

theorem decodeAndJump_eq_retire (E : Env ε) (instr : UInt32) (m : Machine ε) :
    (match ComputedGoto.decodeAndJump instr m with
      | .error x => .error x
      | .ok (m, o, l) => ComputedGoto.handler E m o l) = m.retire E instr := by
  unfold ComputedGoto.decodeAndJump Machine.retire decode
  by_cases h : decodeOp instr < opCount
  · obtain ⟨o, ho⟩ := exists_code_of_lt h
    have hc := code_lt_opCount o
    simp only [← ho, dif_pos hc, ofCode_code, Option.map_some]
    exact handler_eq_apply E (m.dispatched instr) o instr _
  · simp only [dif_neg h, ofCode_eq_none h, Option.map_none]
    rfl

/-- The plumbing both paths write out around their decode is `snapTick`. -/
theorem snapTick_then {α : Type} (E : Env ε) (m : Machine ε)
    (decoded : Machine ε → Except (Exit ε) α) :
    (if m.state.snapInterval > 0 then
      if m.tick.state.snapTimer = 0 then
        if (m.tick.fired E).state.halted ≠ .running then
          .error ⟨m.tick.fired E, .returned (m.tick.fired E).state.halted⟩
        else decoded (m.tick.fired E)
      else decoded m.tick
    else decoded m) =
      match m.snapTick E with
      | .error x => .error x
      | .ok m' => decoded m' := by
  unfold Machine.snapTick
  by_cases hi : m.state.snapInterval > 0
  · by_cases ht : m.tick.state.snapTimer = 0
    · by_cases hh : (m.tick.fired E).state.halted ≠ .running
      · simp only [if_pos hi, if_pos ht, if_pos hh]
      · simp only [if_pos hi, if_pos ht, if_neg hh]
    · simp only [if_pos hi, if_neg ht]
  · simp only [if_neg hi]

/-- `TAIL_DISPATCH` is the fetch, the snapshot plumbing and the decode. -/
theorem tailDispatch_eq (E : Env ε) (m : Machine ε) :
    ComputedGoto.tailDispatch E m =
      match m.advance.snapTick E with
      | .error x => .error x
      | .ok m' => ComputedGoto.decodeAndJump m.fetched m' :=
  snapTick_then E m.advance (ComputedGoto.decodeAndJump m.fetched)

/-- **The computed-goto path is `cycle`.** -/
theorem goto_turn_eq_cycle (E : Env ε) (m : Machine ε) : ComputedGoto.turn E m = m.cycle E := by
  unfold ComputedGoto.turn Machine.cycle
  rw [tailDispatch_eq]
  cases m.advance.snapTick E with
  | error x => rfl
  | ok m' => exact decodeAndJump_eq_retire E m.fetched m'

/-- The `case` both `OP_IN` and `OP_RAND` write out. -/
theorem switch_ask (E : Env ε) (q : Query) (m : Machine ε) (dst : Fin 8) :
    (match E.hooks.query q with
      | none => .ok m
      | some h =>
        match h m.state.cycleCount m.env with
        | (.error e, env) =>
          .error ⟨({ m with env }).log (.hook q.byte m.state.cycleCount), .threw e⟩
        | (.ok v, env) =>
          let m := ({ m with env }).log (.hook q.byte m.state.cycleCount)
          let m := m.setReg dst v
          match E.hooks.onNondeterministic with
          | none => .ok m
          | some observe =>
            match observe m.state.cycleCount q.byte v m.env with
            | (.error e, env) =>
              .error ⟨({ m with env }).log (.observe m.state.cycleCount q.byte v), .threw e⟩
            | (.ok (), env) =>
              .ok (({ m with env }).log (.observe m.state.cycleCount q.byte v))) =
      m.receive dst (consult E.hooks q m.state.cycleCount m.env) := by
  unfold consult Machine.receive Machine.received
  cases E.hooks.query q with
  | none => simp
  | some h =>
    rcases ha : h m.state.cycleCount m.env with ⟨e | v, env⟩
    · simp [ha, Machine.log]
    · cases E.hooks.onNondeterministic with
      | none => simp [ha, Machine.log]
      | some observe =>
        rcases ho : observe m.state.cycleCount q.byte v env with ⟨e | u, env'⟩ <;>
          simp [ha, ho, Machine.log, Machine.setReg, Machine.setState, VM.setState]

theorem switchOp_eq_retire (E : Env ε) (instr : UInt32) (m : Machine ε) :
    NaiveSwitch.switchOp E instr m = m.retire E instr := by
  unfold NaiveSwitch.switchOp Machine.retire decode
  by_cases h : decodeOp instr < opCount
  · obtain ⟨o, ho⟩ := exists_code_of_lt h
    have hc := code_lt_opCount o
    simp only [← ho, ge_iff_le, UInt32.not_le.mpr hc, if_false, ofCode_code, Option.map_some]
    refine Eq.trans ?_
      (handler_eq_apply E (m.dispatched instr) o instr (UInt32.lt_iff_toNat_lt.mp hc))
    rw [show m.log (.dispatch m.state.cycleCount (m.state.pc - 4) instr) = m.dispatched instr
      from rfl]
    generalize m.dispatched instr = d
    let operands : ComputedGoto.Operands := ⟨decodeDst instr, decodeSrc instr, decodeImm instr⟩
    cases o with
    | opStore =>
      simp only [code_inj, reduceCtorEq, if_true, if_false]
      change Except.ok _ = Except.ok _
      unfold ComputedGoto.logStore
      cases d.vm.deltas.getLast? <;> rfl
    | opIn =>
      simp only [code_inj, reduceCtorEq, if_true, if_false]
      exact (switch_ask E .input d _).trans (askLabel_eq_receive E .input d operands).symm
    | opRand =>
      simp only [code_inj, reduceCtorEq, if_true, if_false]
      exact (switch_ask E .random d _).trans (askLabel_eq_receive E .random d operands).symm
    | _ =>
      simp only [code_inj, reduceCtorEq, if_true, if_false]
      rfl
  · simp only [ge_iff_le, UInt32.not_lt.mp h, if_true, ofCode_eq_none h, Option.map_none]
    rfl

/-- **The naive-switch path is `cycle`**, on a machine that is running. -/
theorem switch_turn_eq_cycle (E : Env ε) (m : Machine ε) (h : m.state.halted = .running) :
    NaiveSwitch.turn E m = m.cycle E := by
  have hs : NaiveSwitch.switchOp E m.fetched = Machine.retire E m.fetched :=
    funext (switchOp_eq_retire E m.fetched)
  unfold NaiveSwitch.turn Machine.cycle
  rw [if_neg (not_not_intro h), ← hs]
  exact snapTick_then E m.advance (NaiveSwitch.switchOp E m.fetched)

/-! ## A machine that goes on is running -/

theorem snapTick_running {E : Env ε} {m m' : Machine ε} (hr : m.state.halted = .running)
    (h : m.snapTick E = .ok m') : m'.state.halted = .running := by
  unfold Machine.snapTick at h
  split at h
  · split at h
    · split at h
      · cases h
      · next hh =>
        cases h
        exact not_not.mp hh
    · cases h
      exact hr
  · cases h
    exact hr

theorem receive_running {m m' : Machine ε} {dst : Fin 8} {c : Consulted ε}
    (hr : m.state.halted = .running) (h : m.receive dst c = .ok m') :
    m'.state.halted = .running := by
  unfold Machine.receive at h
  split at h
  · cases h
    unfold Machine.received
    cases c.value <;> exact hr
  · cases h

theorem retire_running {E : Env ε} {instr : UInt32} {m m' : Machine ε}
    (hr : m.state.halted = .running) (h : m.retire E instr = .ok m') :
    m'.state.halted = .running := by
  unfold Machine.retire at h
  split at h
  · cases h
  · next i _ =>
    cases he : i.effect m.mem m.state.cpu with
    | next t =>
      rw [he] at h
      cases h
      exact hr
    | write addr v =>
      rw [he] at h
      cases h
      exact hr
    | ask q dst =>
      rw [he] at h
      exact receive_running (m := m.dispatched instr) hr h
    | stop t r =>
      rw [he] at h
      cases h

/-- A machine that takes a cycle and goes on is still running. -/
theorem cycle_running {E : Env ε} {m m' : Machine ε} (hr : m.state.halted = .running)
    (h : m.cycle E = .ok m') : m'.state.halted = .running := by
  unfold Machine.cycle at h
  split at h
  · cases h
  · next hs => exact retire_running (snapTick_running (m := m.advance) hr hs) h

/-! ## The two paths side by side -/

/-- On a running machine every turn of `VM::run` is `cycle`, whatever the dispatch mode. -/
theorem turn_eq_cycle (E : Env ε) {m : Machine ε} (h : m.state.halted = .running) :
    turn E m = m.cycle E := by
  unfold turn
  cases E.dispatchMode with
  | computedGoto => exact goto_turn_eq_cycle E m
  | naiveSwitch => exact switch_turn_eq_cycle E m h

theorem after_turn_eq (E : Env ε) {m : Machine ε} (h : m.state.halted = .running) (n : Nat) :
    StepLoop.after (turn E) n m = StepLoop.after (Machine.cycle E) n m := by
  induction n generalizing m with
  | zero => rfl
  | succ n ih =>
    cases hc : m.cycle E with
    | error x =>
      rw [StepLoop.after_succ_error hc, StepLoop.after_succ_error (by rw [turn_eq_cycle E h, hc])]
    | ok m' =>
      rw [StepLoop.after_succ_ok hc, StepLoop.after_succ_ok (by rw [turn_eq_cycle E h, hc]),
        ih (cycle_running h hc)]

theorem leaves_turn_iff {E : Env ε} {m : Machine ε} (h : m.state.halted = .running) {x : Exit ε} :
    StepLoop.Leaves (turn E) m x ↔ StepLoop.Leaves (Machine.cycle E) m x := by
  unfold StepLoop.Leaves
  simp only [after_turn_eq E h]

theorem exec_turn_eq (E : Env ε) {m : Machine ε} (h : m.state.halted = .running) (fuel : Nat) :
    StepLoop.exec (turn E) fuel m = StepLoop.exec (Machine.cycle E) fuel m := by
  unfold StepLoop.exec
  rw [after_turn_eq E h]

/-- **The two dispatch paths are equivalent.** From any running machine, with any hooks and any
sink, after every number of turns both paths are at the same VM, the same closure state and the
same calls made, or both have left `run` with the same exit. -/
theorem dispatch_paths_equivalent (hooks : IOHooks ε) (sink : Option (SnapshotSink ε))
    (m : Machine ε) (h : m.state.halted = .running) :
    (∀ n, StepLoop.after (turn ⟨hooks, sink, .computedGoto⟩) n m =
      StepLoop.after (turn ⟨hooks, sink, .naiveSwitch⟩) n m) ∧
    ∀ x, StepLoop.Leaves (turn ⟨hooks, sink, .computedGoto⟩) m x ↔
      StepLoop.Leaves (turn ⟨hooks, sink, .naiveSwitch⟩) m x := by
  have same : ∀ n, StepLoop.after (turn ⟨hooks, sink, .computedGoto⟩) n m =
      StepLoop.after (turn ⟨hooks, sink, .naiveSwitch⟩) n m := by
    intro n
    rw [after_turn_eq _ h, after_turn_eq _ h]
    rfl
  refine ⟨same, fun x => ?_⟩
  unfold StepLoop.Leaves
  simp only [same]

/-- `LI R0, 7; STORE R0, 0x100; HALT` with a snapshot every cycle and a sink that halts on its
second call: both paths leave `run` there, the `STORE` fetched and not carried out. -/
theorem dispatch_paths_equivalent_sink_halts :
    let bytes := imageOf [encode 0x0B 0 0 7, encode 0x02 0 0 0x100, 0]
    let sink : SnapshotSink Nat := fun _ _ n => (if n = 1 then some .step else none, n + 1)
    let m : Machine Nat :=
      .start (VM.setSnapshotInterval { VM.init with mem := fun a => bytes.getD a 0 } 1) 0
    ∃ x, StepLoop.Leaves (turn ⟨⟨none, none, none⟩, some sink, .computedGoto⟩) m x ∧
      StepLoop.Leaves (turn ⟨⟨none, none, none⟩, some sink, .naiveSwitch⟩) m x ∧
      x.stop = .returned .step ∧ x.machine.env = 2 ∧ x.machine.state.regs.get 0 = 7 ∧
      x.machine.mem 0x100 = 0 := by
  intro bytes sink m
  have hstop : ((StepLoop.exec (turn ⟨⟨none, none, none⟩, some sink, .computedGoto⟩) 2 m).map
      fun x => (x.stop, x.machine.env, x.machine.state.regs.get 0, x.machine.mem 0x100)) =
      some (.returned .step, 2, 7, 0) := by
    decide +kernel
  obtain ⟨x, hx, hseen⟩ := Option.map_eq_some_iff.mp hstop
  simp only [Prod.mk.injEq] at hseen
  have hleaves := StepLoop.leaves_iff_exec.mpr ⟨2, hx⟩
  exact ⟨x, hleaves, ((dispatch_paths_equivalent _ _ m rfl).2 x).mp hleaves, hseen⟩

end RetroVM

import RetroVM.Engine.Machine

/-!
# The naive-switch dispatch path (`vm.cpp`, `VM::run`, `DispatchMode::NaiveSwitch`)

The second implementation of the twelve opcodes: a `while (halted == HALT_RUNNING)` around a fetch
and a `switch`. It is translated from its own copy of the source; nothing of the computed-goto
path is used. One `turn` is one test of the loop head and, if it passes, one pass through the body;
a `break` of the `switch` is the next turn.
-/

namespace RetroVM.NaiveSwitch

variable {ε : Type}

/-- The loop body from the decode on: the unknown-opcode guard and the `switch`. -/
def switchOp (E : Env ε) (instr : UInt32) (m : Machine ε) : Except (Exit ε) (Machine ε) :=
  let op := decodeOp instr
  let dst := decodeDst instr
  let src := decodeSrc instr
  let imm := decodeImm instr
  if op ≥ opCount then
    let m := m.setHalted .unknownOp
    .error ⟨m, .returned m.state.halted⟩
  else
  let m := m.log (.dispatch m.state.cycleCount (m.state.pc - 4) instr)
  if op = Opcode.opHalt.code then
    .error ⟨m.setHalted .normal, .returned .normal⟩
  else if op = Opcode.opLoad.code then
    .ok (m.setReg dst (memLoadU32 m.mem imm))
  else if op = Opcode.opStore.code then
    let page := ((imm >>> 12) &&& 0xFF).toUInt8
    let offset := (imm &&& 0xFFF).toUInt16
    let deltas :=
      match m.vm.deltas.getLast? with
      | some back =>
        if back.page = page ∧ back.offset = offset ∧ back.runCount < 255 then
          m.vm.deltas.dropLast ++ [{ back with runCount := back.runCount + 1 }]
        else
          m.vm.deltas ++
            [{ runCount := 1, page, offset, oldValue := memLoadU32 m.mem imm }]
      | none =>
        m.vm.deltas ++ [{ runCount := 1, page, offset, oldValue := memLoadU32 m.mem imm }]
    .ok { m with vm := { m.vm with
      mem := memStoreU32 m.mem imm (m.state.regs.get dst)
      deltas } }
  else if op = Opcode.opAdd.code then
    let a := m.state.regs.get dst
    let b := m.state.regs.get src
    let r := a + b
    let m := m.setReg dst r
    let f := 0
    let f := if r = 0 then f ||| flagZF else f
    let f := if r < a then f ||| flagCF else f
    let f := if r &&& 0x80000000 ≠ 0 then f ||| flagSF else f
    .ok (m.setState { m.state with flags := f })
  else if op = Opcode.opSub.code then
    let a := m.state.regs.get dst
    let b := m.state.regs.get src
    let r := a - b
    let m := m.setReg dst r
    let f := 0
    let f := if r = 0 then f ||| flagZF else f
    let f := if a < b then f ||| flagCF else f
    let f := if r &&& 0x80000000 ≠ 0 then f ||| flagSF else f
    .ok (m.setState { m.state with flags := f })
  else if op = Opcode.opMul.code then
    let a := m.state.regs.get dst
    let b := m.state.regs.get src
    let p := a.toUInt64 * b.toUInt64
    let r := p.toUInt32
    let m := m.setReg dst r
    let f := 0
    let f := if r = 0 then f ||| flagZF else f
    let f := if p > 0xFFFFFFFF then f ||| flagCF else f
    let f := if r &&& 0x80000000 ≠ 0 then f ||| flagSF else f
    .ok (m.setState { m.state with flags := f })
  else if op = Opcode.opDiv.code then
    let a := m.state.regs.get dst
    let b := m.state.regs.get src
    if b = 0 then
      let m := m.setState { m.state with pc := m.state.pc - 4 }
      .error ⟨m.setHalted .divZero, .returned .divZero⟩
    else
      let q := a / b
      let m := m.setReg dst q
      let f := 0
      let f := if q = 0 then f ||| flagZF else f
      let f := if q &&& 0x80000000 ≠ 0 then f ||| flagSF else f
      .ok (m.setState { m.state with flags := f })
  else if op = Opcode.opJump.code then
    .ok (m.setState { m.state with pc := imm })
  else if op = Opcode.opJnz.code then
    if m.state.regs.get dst ≠ 0 then .ok (m.setState { m.state with pc := imm }) else .ok m
  else if op = Opcode.opIn.code then
    match E.hooks.inHook with
    | none => .ok m
    | some h =>
      match h m.state.cycleCount m.env with
      | (.error e, env) =>
        .error ⟨({ m with env }).log (.hook Opcode.opIn.byte m.state.cycleCount), .threw e⟩
      | (.ok v, env) =>
        let m := ({ m with env }).log (.hook Opcode.opIn.byte m.state.cycleCount)
        let m := m.setReg dst v
        match E.hooks.onNondeterministic with
        | none => .ok m
        | some observe =>
          match observe m.state.cycleCount Opcode.opIn.byte v m.env with
          | (.error e, env) =>
            .error ⟨({ m with env }).log
              (.observe m.state.cycleCount Opcode.opIn.byte v), .threw e⟩
          | (.ok (), env) =>
            .ok (({ m with env }).log (.observe m.state.cycleCount Opcode.opIn.byte v))
  else if op = Opcode.opRand.code then
    match E.hooks.randHook with
    | none => .ok m
    | some h =>
      match h m.state.cycleCount m.env with
      | (.error e, env) =>
        .error ⟨({ m with env }).log (.hook Opcode.opRand.byte m.state.cycleCount), .threw e⟩
      | (.ok v, env) =>
        let m := ({ m with env }).log (.hook Opcode.opRand.byte m.state.cycleCount)
        let m := m.setReg dst v
        match E.hooks.onNondeterministic with
        | none => .ok m
        | some observe =>
          match observe m.state.cycleCount Opcode.opRand.byte v m.env with
          | (.error e, env) =>
            .error ⟨({ m with env }).log
              (.observe m.state.cycleCount Opcode.opRand.byte v), .threw e⟩
          | (.ok (), env) =>
            .ok (({ m with env }).log (.observe m.state.cycleCount Opcode.opRand.byte v))
  else if op = Opcode.opLi.code then
    .ok (m.setReg dst imm)
  else
    -- `default: break`
    .ok m

/-- One pass through the `while` loop: the head test, the fetch, the snapshot plumbing and the
`switch`. -/
def turn (E : Env ε) (m : Machine ε) : Except (Exit ε) (Machine ε) :=
  if m.state.halted ≠ .running then .error ⟨m, .returned m.state.halted⟩ else
  let instr := memLoadU32 m.mem m.state.pc
  let m := m.setState { m.state with
    pc := m.state.pc + 4
    cycleCount := m.state.cycleCount + 1 }
  if m.state.snapInterval > 0 then
    let m := m.setState { m.state with snapTimer := m.state.snapTimer - 1 }
    if m.state.snapTimer = 0 then
      let m := m.makeSnapshot E
      let m := m.setState { m.state with snapTimer := m.state.snapInterval }
      if m.state.halted ≠ .running then .error ⟨m, .returned m.state.halted⟩
      else switchOp E instr m
    else switchOp E instr m
  else switchOp E instr m

end RetroVM.NaiveSwitch

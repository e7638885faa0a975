import RetroVM.Engine.Machine

/-!
# The computed-goto dispatch path (`vm.cpp`, `VM::run`)

`TAIL_DISPATCH` fetches, counts, runs the snapshot plumbing and jumps through the table of label
addresses; every handler but `HALT` ends in another `TAIL_DISPATCH`. One `turn` is one
`TAIL_DISPATCH` and the handler it jumps to, so `VM::run` is the loop of `turn`. A `return` or an
exception leaves the loop.
-/

namespace RetroVM.ComputedGoto

variable {ε : Type}

/-- The handler labels. -/
inductive Label where
  | labelHalt | labelLoad | labelStore | labelAdd | labelSub | labelMul
  | labelDiv | labelJump | labelJnz | labelIn | labelRand | labelLi

/-- `dispatch[OP_COUNT]`. -/
def dispatch : Vector Label 12 :=
  #v[.labelHalt, .labelLoad, .labelStore, .labelAdd, .labelSub,
     .labelMul, .labelDiv, .labelJump, .labelJnz, .labelIn,
     .labelRand, .labelLi]

/-- The function-scope variables `dst`, `src` and `imm`. -/
structure Operands where
  dst : Fin 8
  src : Fin 8
  imm : UInt32

/-- `TAIL_DISPATCH` from the decode on: the machine, the operands and the label jumped to, or the
return for an unknown opcode. -/
def decodeAndJump (instr : UInt32) (m : Machine ε) :
    Except (Exit ε) (Machine ε × Operands × Label) :=
  let op := decodeOp instr
  let operands := { dst := decodeDst instr, src := decodeSrc instr, imm := decodeImm instr }
  if h : op < opCount then
    .ok (m.log (.dispatch m.state.cycleCount (m.state.pc - 4) instr), operands,
      dispatch.get ⟨op.toNat, UInt32.lt_iff_toNat_lt.mp h⟩)
  else
    let m := m.setHalted .unknownOp
    .error ⟨m, .returned m.state.halted⟩

/-- `TAIL_DISPATCH`. -/
def tailDispatch (E : Env ε) (m : Machine ε) : Except (Exit ε) (Machine ε × Operands × Label) :=
  let instr := memLoadU32 m.mem m.state.pc
  let m := m.setState { m.state with
    pc := m.state.pc + 4
    cycleCount := m.state.cycleCount + 1 }
  if m.state.snapInterval > 0 then
    let m := m.setState { m.state with snapTimer := m.state.snapTimer - 1 }
    if m.state.snapTimer = 0 then
      let m := m.makeSnapshot E
      -- the reload comes before the soft-halt check
      let m := m.setState { m.state with snapTimer := m.state.snapInterval }
      if m.state.halted ≠ .running then .error ⟨m, .returned m.state.halted⟩
      else decodeAndJump instr m
    else decodeAndJump instr m
  else decodeAndJump instr m

/-- `label_HALT`. -/
def labelHalt (m : Machine ε) : Except (Exit ε) (Machine ε) :=
  .error ⟨m.setHalted .normal, .returned .normal⟩

/-- `label_LOAD`. -/
def labelLoad (m : Machine ε) (o : Operands) : Except (Exit ε) (Machine ε) :=
  .ok (m.setReg o.dst (memLoadU32 m.mem o.imm))

/-- The log after `label_STORE` has recorded the cell at `imm`: the newest entry's burst grows, or
a new entry captures the old value. -/
def logStore (mem : Memory) (deltas : List MemDelta) (imm : UInt32) : List MemDelta :=
  let page := ((imm >>> 12) &&& 0xFF).toUInt8
  let offset := (imm &&& 0xFFF).toUInt16
  let pushed := deltas ++ [{ runCount := 1, page, offset, oldValue := memLoadU32 mem imm }]
  match deltas.getLast? with
  | none => pushed
  | some back =>
    if back.page = page ∧ back.offset = offset ∧ back.runCount < 255 then
      deltas.dropLast ++ [{ back with runCount := back.runCount + 1 }]
    else pushed

/-- `label_STORE`. -/
def labelStore (m : Machine ε) (o : Operands) : Except (Exit ε) (Machine ε) :=
  .ok { m with vm := { m.vm with
    mem := memStoreU32 m.mem o.imm (m.state.regs.get o.dst)
    deltas := logStore m.mem m.vm.deltas o.imm } }

/-- `label_ADD`. -/
def labelAdd (m : Machine ε) (o : Operands) : Except (Exit ε) (Machine ε) :=
  let a := m.state.regs.get o.dst
  let b := m.state.regs.get o.src
  let r := a + b
  let m := m.setReg o.dst r
  let f := 0
  let f := if r = 0 then f ||| flagZF else f
  let f := if r < a then f ||| flagCF else f
  let f := if r &&& 0x80000000 ≠ 0 then f ||| flagSF else f
  .ok (m.setState { m.state with flags := f })

/-- `label_SUB`. -/
def labelSub (m : Machine ε) (o : Operands) : Except (Exit ε) (Machine ε) :=
  let a := m.state.regs.get o.dst
  let b := m.state.regs.get o.src
  let r := a - b
  let m := m.setReg o.dst r
  let f := 0
  let f := if r = 0 then f ||| flagZF else f
  let f := if a < b then f ||| flagCF else f
  let f := if r &&& 0x80000000 ≠ 0 then f ||| flagSF else f
  .ok (m.setState { m.state with flags := f })

/-- `label_MUL`. -/
def labelMul (m : Machine ε) (o : Operands) : Except (Exit ε) (Machine ε) :=
  let a := m.state.regs.get o.dst
  let b := m.state.regs.get o.src
  let p := a.toUInt64 * b.toUInt64
  let r := p.toUInt32
  let m := m.setReg o.dst r
  let f := 0
  let f := if r = 0 then f ||| flagZF else f
  let f := if p > 0xFFFFFFFF then f ||| flagCF else f
  let f := if r &&& 0x80000000 ≠ 0 then f ||| flagSF else f
  .ok (m.setState { m.state with flags := f })

/-- `label_DIV`. -/
def labelDiv (m : Machine ε) (o : Operands) : Except (Exit ε) (Machine ε) :=
  let a := m.state.regs.get o.dst
  let b := m.state.regs.get o.src
  if b = 0 then
    let m := m.setState { m.state with pc := m.state.pc - 4 }
    .error ⟨m.setHalted .divZero, .returned .divZero⟩
  else
    let q := a / b
    let m := m.setReg o.dst q
    let f := 0
    let f := if q = 0 then f ||| flagZF else f
    let f := if q &&& 0x80000000 ≠ 0 then f ||| flagSF else f
    .ok (m.setState { m.state with flags := f })

/-- `label_JUMP`. -/
def labelJump (m : Machine ε) (o : Operands) : Except (Exit ε) (Machine ε) :=
  .ok (m.setState { m.state with pc := o.imm })

/-- `label_JNZ`. -/
def labelJnz (m : Machine ε) (o : Operands) : Except (Exit ε) (Machine ε) :=
  if m.state.regs.get o.dst ≠ 0 then .ok (m.setState { m.state with pc := o.imm }) else .ok m

/-- The body `label_IN` and `label_RAND` share: ask `hook`, write the register, tell the
observer. -/
def askLabel (E : Env ε) (hook : Option (UInt64 → Hooked ε UInt32)) (op : Opcode) (m : Machine ε)
    (o : Operands) : Except (Exit ε) (Machine ε) :=
  match hook with
  | none => .ok m
  | some h =>
    let cycle := m.state.cycleCount
    let (answer, env) := h cycle m.env
    let m := ({ m with env }).log (.hook op.byte cycle)
    match answer with
    | .error e => .error ⟨m, .threw e⟩
    | .ok v =>
      let m := m.setReg o.dst v
      match E.hooks.onNondeterministic with
      | none => .ok m
      | some observe =>
        let (done, env) := observe cycle op.byte v m.env
        let m := ({ m with env }).log (.observe cycle op.byte v)
        match done with
        | .error e => .error ⟨m, .threw e⟩
        | .ok () => .ok m

/-- `label_IN`. -/
def labelIn (E : Env ε) (m : Machine ε) (o : Operands) : Except (Exit ε) (Machine ε) :=
  askLabel E E.hooks.inHook .opIn m o

/-- `label_RAND`. -/
def labelRand (E : Env ε) (m : Machine ε) (o : Operands) : Except (Exit ε) (Machine ε) :=
  askLabel E E.hooks.randHook .opRand m o

/-- `label_LI`. -/
def labelLi (m : Machine ε) (o : Operands) : Except (Exit ε) (Machine ε) :=
  .ok (m.setReg o.dst o.imm)

/-- The handler at a label, up to its own `TAIL_DISPATCH`. -/
def handler (E : Env ε) (m : Machine ε) (o : Operands) : Label → Except (Exit ε) (Machine ε)
  | .labelHalt => labelHalt m
  | .labelLoad => labelLoad m o
  | .labelStore => labelStore m o
  | .labelAdd => labelAdd m o
  | .labelSub => labelSub m o
  | .labelMul => labelMul m o
  | .labelDiv => labelDiv m o
  | .labelJump => labelJump m o
  | .labelJnz => labelJnz m o
  | .labelIn => labelIn E m o
  | .labelRand => labelRand E m o
  | .labelLi => labelLi m o

/-- One `TAIL_DISPATCH` and the handler it jumps to. -/
def turn (E : Env ε) (m : Machine ε) : Except (Exit ε) (Machine ε) :=
  match tailDispatch E m with
  | .error x => .error x
  | .ok (m, o, l) => handler E m o l

end RetroVM.ComputedGoto

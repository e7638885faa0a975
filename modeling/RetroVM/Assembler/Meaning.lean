import RetroVM.Assembler.Canonical
import RetroVM.Snapshot.Periodic

/-!
# What a source text means

The meaning of an assembled text, said of its statements and not of the words they become. A
program is a list of statements; between two of them it has the number of the next one, registers,
flags, a cycle count and data. It may give up: where it runs past its last statement, jumps between
two of them, or touches the bytes its own text is stored in, its meaning ends (`outside`).

Results:
* `assembleOp_word`, `assembleLines_words`: every word the assembler emits is the word of a
  statement.
* `turn_stands`: a statement performed is a machine cycle.
* `watched_performs`: so it is with snapshots on, to a sink that asks for no halt.
* `Contained.turn`: what keeps a program at its statements.
* **`assembled_text_runs_as_written`**: the VM runs the assembled file as the text says, for as long
  as the text says anything.
* **`contained_program_is_safe`**: a text that can be seen to keep to itself always says something.
-/

namespace RetroVM.Source

variable {ε η : Type}

/-! ## Programs -/

/-- Something a program did. -/
inductive Deed where
  /-- The statement at `line` was started in cycle `cycle`. -/
  | performed (cycle : UInt64) (line : Nat) (s : Statement)
  /-- A hook or an observer was called. -/
  | called (c : Call)

/-- A program between two statements. -/
structure State (ε : Type) where
  line  : Nat
  regs  : Vector UInt32 8
  flags : UInt32
  cycle : UInt64
  data  : Memory
  env   : ε
  deeds : List Deed

/-- A program before it has run. -/
def State.start (env : ε) : State ε where
  line := 0
  regs := Vector.replicate 8 0
  flags := 0
  cycle := 0
  data := fun _ => 0
  env := env
  deeds := []

/-- How a program ends. -/
inductive End (ε : Type) where
  | halted (t : State ε)
  | divZero (t : State ε)
  | threw (t : State ε) (e : TraceMismatch)
  /-- Its text says nothing of what comes next. -/
  | outside (t : State ε)

/-- The program gave up. -/
def End.IsOutside : End ε → Prop
  | .outside _ => True
  | _ => False

/-- A word at `addr` is none of the bytes `n` statements are stored in. -/
def Beyond (n : Nat) (addr : UInt32) : Prop :=
  ∀ k : Fin 4, 4 * n ≤ (arena (addr + UInt32.ofNat k.val)).val

instance (n : Nat) (addr : UInt32) : Decidable (Beyond n addr) :=
  inferInstanceAs (Decidable (∀ k : Fin 4, 4 * n ≤ (arena (addr + UInt32.ofNat k.val)).val))

namespace State

/-- Start on the statement `s`. -/
def begin (t : State ε) (s : Statement) : State ε :=
  { t with
    line := t.line + 1
    cycle := t.cycle + 1
    deeds := t.deeds ++ [.performed (t.cycle + 1) t.line s] }

/-- Put `v` in a register. -/
def set (t : State ε) (dst : Fin 8) (v : UInt32) : State ε :=
  { t with regs := assign t.regs dst v }

/-- Put the result of an operation in its first register. -/
def compute (t : State ε) (op : Alu) (s : Statement) : State ε :=
  let r := op.eval (t.regs.get s.dst) (t.regs.get s.src)
  { t.set s.dst r.1 with flags := r.2 }

/-- Put a quotient in its first register. -/
def divide (t : State ε) (s : Statement) : State ε :=
  let q := t.regs.get s.dst / t.regs.get s.src
  { t.set s.dst q with flags := flagsOf q False }

/-- Go on at the statement stored at an address. -/
def goto (t : State ε) (imm : UInt32) : Except (End ε) (State ε) :=
  if imm.toNat % 4 = 0 then .ok { t with line := imm.toNat / 4 } else .error (.outside t)

/-- Take note of what the hooks answered. -/
def told (t : State ε) (dst : Fin 8) (c : Consulted ε) : State ε :=
  let t : State ε := { t with env := c.env, deeds := t.deeds ++ c.calls.map .called }
  c.value.elim t (t.set dst)

/-- Ask the hooks for a value. -/
def ask (t : State ε) (hooks : IOHooks ε) (q : Query) (dst : Fin 8) :
    Except (End ε) (State ε) :=
  let c := consult hooks q t.cycle t.env
  match c.thrown with
  | none => .ok (t.told dst c)
  | some e => .error (.threw (t.told dst c) e)

end State

/-- Perform a statement of a program of `n`, once started on. -/
def perform (hooks : IOHooks ε) (n : Nat) (s : Statement) (t : State ε) :
    Except (End ε) (State ε) :=
  match s.op with
  | .opHalt => .error (.halted t)
  | .opLoad =>
    if Beyond n s.imm then .ok (t.set s.dst (memLoadU32 t.data s.imm)) else .error (.outside t)
  | .opStore =>
    if Beyond n s.imm then .ok { t with data := memStoreU32 t.data s.imm (t.regs.get s.dst) }
    else .error (.outside t)
  | .opAdd => .ok (t.compute .add s)
  | .opSub => .ok (t.compute .sub s)
  | .opMul => .ok (t.compute .mul s)
  | .opDiv =>
    if t.regs.get s.src = 0 then .error (.divZero { t with line := t.line - 1 })
    else .ok (t.divide s)
  | .opJump => t.goto s.imm
  | .opJnz => if t.regs.get s.dst ≠ 0 then t.goto s.imm else .ok t
  | .opIn => t.ask hooks .input s.dst
  | .opRand => t.ask hooks .random s.dst
  | .opLi => .ok (t.set s.dst s.imm)

/-- The next statement of a program. -/
def turn (hooks : IOHooks ε) (prog : List Statement) (t : State ε) :
    Except (End ε) (State ε) :=
  match prog[t.line]? with
  | none => .error (.outside t)
  | some s => perform hooks prog.length s (t.begin s)

/-! ## Programs and machines -/

/-- The call of a machine that a deed of a program is. -/
def Deed.call : Deed → Call
  | .performed cycle line s => .dispatch cycle (UInt32.ofNat (4 * line)) s.word
  | .called c => c

/-- The file of a program, loaded. -/
def image (prog : List Statement) : Memory :=
  fun a => (imageOf (prog.map Statement.word)).getD a 0

/-- The machine `m` stands where the program does: the text is in its place, and the data behind
it. -/
structure Stands (prog : List Statement) (m : Machine ε) (t : State ε) : Prop where
  pc     : m.state.pc = UInt32.ofNat (4 * t.line)
  regs   : m.state.regs = t.regs
  flags  : m.state.flags = t.flags
  cycle  : m.state.cycleCount = t.cycle
  text   : ∀ a : Addr, a.val < 4 * prog.length → m.mem a = image prog a
  data   : ∀ a : Addr, 4 * prog.length ≤ a.val → m.mem a = t.data a
  env    : m.env = t.env
  deeds  : calls m.history = t.deeds.map Deed.call

/-- It is running, with snapshots off. -/
structure Runs (prog : List Statement) (m : Machine ε) (t : State ε) : Prop
    extends Stands prog m t where
  halted   : m.state.halted = .running
  interval : m.state.snapInterval = 0

/-- The machine ended as the program did. -/
def Ended (prog : List Statement) (x : Exit ε) : End ε → Prop
  | .halted t => x.stop = .returned .normal ∧ Stands prog x.machine t
  | .divZero t => x.stop = .returned .divZero ∧ Stands prog x.machine t
  | .threw t e => x.stop = .threw e ∧ Stands prog x.machine t
  | .outside _ => False

/-! ## Words of statements -/

/-- The operands of a statement's word are the statement's. -/
theorem instr_word (s : Statement) (o : Opcode) :
    o.instr s.word = match o with
      | .opHalt => .halt
      | .opLoad => .load s.dst s.imm
      | .opStore => .store s.dst s.imm
      | .opAdd => .alu .add s.dst s.src
      | .opSub => .alu .sub s.dst s.src
      | .opMul => .alu .mul s.dst s.src
      | .opDiv => .div s.dst s.src
      | .opJump => .jump s.imm
      | .opJnz => .jnz s.dst s.imm
      | .opIn => .ask .input s.dst
      | .opRand => .ask .random s.dst
      | .opLi => .li s.dst s.imm := by
  obtain ⟨-, hdst, hsrc, himm⟩ := decode_word s
  cases o <;> simp only [Opcode.instr, hdst, hsrc, himm]

/-- The word of a statement is an instruction. -/
theorem decode_statement (s : Statement) : decode s.word = some (s.op.instr s.word) := by
  unfold decode
  rw [(decode_word s).1, ofCode_code]
  rfl

section Stands

variable {prog : List Statement} {m : Machine ε} {t : State ε}

/-- Bytes beyond the text. -/
theorem Beyond.cells {n : Nat} {addr : UInt32} (h : Beyond n addr) {a : Addr}
    (ha : a ∈ RetroVM.cells addr) : 4 * n ≤ a.val := by
  have hzero : addr + UInt32.ofNat 0 = addr := UInt32.add_zero addr
  rcases mem_cells.mp ha with rfl | rfl | rfl | rfl
  · exact h 3
  · exact h 2
  · exact h 1
  · have h0 := h 0
    rwa [show ((0 : Fin 4).val) = 0 from rfl, hzero] at h0

/-- The cells a statement is stored in. -/
theorem cells_line {l n : Nat} (hl : l < n) (hn : n ≤ 2 ^ 18) {a : Addr}
    (ha : a ∈ RetroVM.cells (UInt32.ofNat (4 * l))) : a.val < 4 * n := by
  have hmem : (memSize : Nat) = 4 * 2 ^ 18 := rfl
  obtain ⟨-, hlt⟩ := val_of_mem_cells (by omega) ha
  omega

/-- **The machine fetches the statement the program is at.** -/
theorem Stands.fetched (h : Stands prog m t) (hfit : prog.length ≤ 2 ^ 18) {s : Statement}
    (hs : prog[t.line]? = some s) : m.fetched = s.word := by
  obtain ⟨hlt, hget⟩ := List.getElem?_eq_some_iff.mp hs
  have himage : memLoadU32 m.mem (UInt32.ofNat (4 * t.line)) =
      memLoadU32 (image prog) (UInt32.ofNat (4 * t.line)) :=
    memLoadU32_congr fun a ha => h.text a (cells_line hlt hfit ha)
  have hin : t.line < (prog.map Statement.word).length := by
    rw [List.length_map]
    exact hlt
  have hword := fetch_imageOf (by rw [List.length_map]; exact hfit) hin
  unfold Machine.fetched
  rw [h.pc, himage]
  refine hword.trans ?_
  rw [List.getElem_map, hget]

/-! ## One statement -/

/-- A statement started on is an instruction fetched and dispatched. -/
theorem Stands.begin (h : Stands prog m t) (s : Statement) :
    Stands prog (m.advance.dispatched s.word) (t.begin s) where
  pc := by
    change m.state.pc + 4 = UInt32.ofNat (4 * (t.line + 1))
    rw [h.pc, Nat.mul_add, UInt32.ofNat_add]
    rfl
  regs := h.regs
  flags := h.flags
  cycle := congrArg (· + 1) h.cycle
  text := h.text
  data := h.data
  env := h.env
  deeds := by
    have hpc : m.state.pc + 4 - 4 = UInt32.ofNat (4 * t.line) := by
      rw [UInt32.add_sub_cancel, h.pc]
    simp [State.begin, Deed.call, h.deeds, h.cycle, hpc]

/-- Registers, flags and pc written alike at both. -/
theorem Stands.setCpu (h : Stands prog m t) {c : Cpu} {l : Nat} {regs : Vector UInt32 8}
    {flags : UInt32} (hpc : c.pc = UInt32.ofNat (4 * l)) (hregs : c.regs = regs)
    (hflags : c.flags = flags) :
    Stands prog (m.setState (m.state.setCpu c)) { t with line := l, regs, flags } :=
  { h with pc := hpc, regs := hregs, flags := hflags }

theorem Stands.setHalted (h : Stands prog m t) (r : HaltReason) :
    Stands prog (m.setHalted r) t :=
  { h with }

/-- A load beyond the text. -/
theorem Stands.load (h : Stands prog m t) {addr : UInt32} (hb : Beyond prog.length addr) :
    memLoadU32 m.mem addr = memLoadU32 t.data addr :=
  memLoadU32_congr fun a ha => h.data a (hb.cells ha)

/-- A store beyond the text leaves the text in its place. -/
theorem Stands.store (h : Stands prog m t) {addr v : UInt32} (hb : Beyond prog.length addr) :
    Stands prog { m with vm := m.vm.store addr v } { t with data := memStoreU32 t.data addr v } :=
  { h with
    text := fun a ha => by
      change memStoreU32 m.mem addr v a = _
      rw [memStoreU32_eq, pokeU32_of_notMem fun hc => absurd (hb.cells hc) (Nat.not_le.mpr ha)]
      exact h.text a ha
    data := fun a ha => by
      change memStoreU32 m.mem addr v a = memStoreU32 t.data addr v a
      rw [memStoreU32_eq, memStoreU32_eq]
      by_cases hc : a ∈ RetroVM.cells addr
      · exact pokeU32_of_mem _ _ hc
      · rw [pokeU32_of_notMem hc, pokeU32_of_notMem hc]
        exact h.data a ha }

/-- What the hooks answered is received alike. -/
theorem Stands.received (h : Stands prog m t) (dst : Fin 8) (c : Consulted ε) :
    Stands prog (m.received dst c) (t.told dst c) := by
  have hcalls : (t.deeds ++ c.calls.map Deed.called).map Deed.call =
      calls (m.history ++ c.calls.map .call) := by
    rw [List.map_append, calls_append, calls_map_call, h.deeds, List.map_map]
    exact congrArg _ (List.map_id _)
  unfold State.told Machine.received
  cases c.value with
  | none => exact { h with env := rfl, deeds := hcalls.symm }
  | some v =>
    have hregs : assign m.state.regs dst v = assign t.regs dst v := by rw [h.regs]
    exact { h with regs := hregs, env := rfl, deeds := hcalls.symm }

/-! ## One turn -/

section Turn

variable {E : Env ε} {s : Statement}

/-- How a machine's turn and a program's compare. -/
abbrev InStep (prog : List Statement) :
    Except (Exit ε) (Machine ε) → Except (End ε) (State ε) → Prop :=
  StepLoop.Upto (Runs prog) (Ended prog) End.IsOutside

theorem Runs.next (h : Runs prog m t) {c : Cpu} {l : Nat} {regs : Vector UInt32 8}
    {flags : UInt32} (hpc : c.pc = UInt32.ofNat (4 * l)) (hregs : c.regs = regs)
    (hflags : c.flags = flags) :
    InStep prog (m.apply E (.next c)) (.ok { t with line := l, regs, flags }) :=
  .matched (.ok { h.toStands.setCpu hpc hregs hflags with
    halted := h.halted, interval := h.interval })

/-- An operation that cannot trap. -/
theorem Runs.compute (h : Runs prog m t) (op : Alu) :
    InStep prog (m.apply E ((Instr.alu op s.dst s.src).effect m.mem m.state.cpu))
      (.ok (t.compute op s)) := by
  have hcpu : m.state.cpu = ⟨t.regs, UInt32.ofNat (4 * t.line), t.flags⟩ := by
    simp [VMState.cpu, h.pc, h.regs, h.flags]
  rw [hcpu]
  exact h.next rfl rfl rfl

/-- A jump: to a statement, or out of the text. -/
theorem Runs.goto (h : Runs prog m t) (imm : UInt32) :
    InStep prog (m.apply E (.next { m.state.cpu with pc := imm })) (t.goto imm) := by
  unfold State.goto
  by_cases hal : imm.toNat % 4 = 0
  · have hpc : imm = UInt32.ofNat (4 * (imm.toNat / 4)) := by
      rw [Nat.mul_div_cancel' (Nat.dvd_of_mod_eq_zero hal), UInt32.ofNat_toNat]
    rw [if_pos hal]
    exact h.next hpc h.regs h.flags
  · rw [if_neg hal]
    exact .gaveUp trivial

/-- A question to the hooks. -/
theorem Runs.ask (h : Runs prog m t) (q : Query) (dst : Fin 8) :
    InStep prog (m.apply E (.ask q dst)) (t.ask E.hooks q dst) := by
  have hcons : consult E.hooks q m.state.cycleCount m.env =
      consult E.hooks q t.cycle t.env := by
    rw [h.cycle, h.env]
  unfold Machine.apply Machine.receive State.ask
  simp only [hcons]
  generalize consult E.hooks q t.cycle t.env = c
  have hstands := h.toStands.received dst c
  cases c.thrown with
  | none =>
    refine .matched (.ok { hstands with halted := ?_, interval := ?_ })
    · rw [received_halted, h.halted]
    · rw [(received_frame m dst c).snapInterval, h.interval]
  | some e => exact .matched (.error ⟨rfl, hstands⟩)

/-- **A statement performed is an instruction carried out**, for as long as the text says what it
does. -/
theorem Runs.perform (h : Runs prog m t) (hline : 0 < t.line) :
    InStep prog (m.apply E ((s.op.instr s.word).effect m.mem m.state.cpu))
      (perform E.hooks prog.length s t) := by
  have hreg : ∀ r, m.state.cpu.regs.get r = t.regs.get r := fun r => by
    rw [VMState.cpu, h.regs]
  unfold Source.perform
  rw [instr_word]
  cases s.op with
  | opHalt =>
    exact .matched (.error ⟨rfl, (h.toStands.setCpu h.pc h.regs h.flags).setHalted _⟩)
  | opLoad =>
    by_cases hb : Beyond prog.length s.imm
    · simp only [if_pos hb, Instr.effect, h.toStands.load hb]
      exact h.next h.pc (by rw [VMState.cpu, h.regs]) h.flags
    · simp only [if_neg hb]
      exact .gaveUp trivial
  | opStore =>
    by_cases hb : Beyond prog.length s.imm
    · simp only [if_pos hb, Instr.effect, hreg]
      exact .matched (.ok { h.toStands.store hb with
        halted := h.halted, interval := h.interval })
    · simp only [if_neg hb]
      exact .gaveUp trivial
  | opAdd | opSub | opMul => exact h.compute _
  | opDiv =>
    simp only [Instr.effect, hreg]
    by_cases hz : t.regs.get s.src = 0
    · have hpc : m.state.cpu.pc - 4 = UInt32.ofNat (4 * (t.line - 1)) := by
        obtain ⟨l, hl⟩ := Nat.exists_eq_add_of_lt hline
        rw [VMState.cpu, h.pc, hl, Nat.zero_add, Nat.add_sub_cancel, Nat.mul_add, UInt32.ofNat_add]
        exact UInt32.add_sub_cancel _ _
      simp only [if_pos hz]
      exact .matched (.error ⟨rfl, (h.toStands.setCpu hpc h.regs h.flags).setHalted _⟩)
    · simp only [if_neg hz]
      exact h.next h.pc (by rw [VMState.cpu, h.regs]; rfl) rfl
  | opJump => exact h.goto s.imm
  | opJnz =>
    simp only [Instr.effect, hreg]
    by_cases hz : t.regs.get s.dst ≠ 0
    · simp only [if_pos hz]
      exact h.goto s.imm
    · simp only [if_neg hz]
      exact h.next h.pc h.regs h.flags
  | opIn => exact h.ask .input s.dst
  | opRand => exact h.ask .random s.dst
  | opLi => exact h.next h.pc (by rw [VMState.cpu, h.regs]) h.flags

/-- **A statement is a machine cycle.** -/
theorem turn_stands (h : Runs prog m t) (hfit : prog.length ≤ 2 ^ 18) :
    InStep prog (RetroVM.turn E m) (turn E.hooks prog t) := by
  rw [turn_eq_cycle E h.halted, cycle_off E h.interval]
  unfold Source.turn
  cases hs : prog[t.line]? with
  | none => exact .gaveUp trivial
  | some s =>
    have hbegin : Runs prog (m.advance.dispatched s.word) (t.begin s) :=
      { h.toStands.begin s with halted := h.halted, interval := h.interval }
    rw [h.toStands.fetched hfit hs]
    unfold Machine.retire
    rw [decode_statement]
    exact hbegin.perform (Nat.succ_pos _)

end Turn

end Stands

/-! ## What the assembler emits -/

/-- A machine, seen through `view`, carries a program: it goes on, halts, traps and throws as the
program does, and where it leaves the program has left. -/
structure Carries (E : Env ε) (view : Machine ε → Machine η) (hooks : IOHooks η)
    (prog : List Statement) (m : Machine ε) (t : State η) : Prop where
  goes : ∀ n t', StepLoop.after (turn hooks prog) n t = .ok t' →
    ∃ m', StepLoop.after (RetroVM.turn E) n m = .ok m' ∧ Stands prog (view m') t'
  ends : ∀ e, StepLoop.Leaves (turn hooks prog) t e → e.IsOutside ∨
    ∃ x, StepLoop.Leaves (RetroVM.turn E) m x ∧ Ended prog ⟨view x.machine, x.stop⟩ e
  left : ∀ x, StepLoop.Leaves (RetroVM.turn E) m x →
    ∃ e, StepLoop.Leaves (turn hooks prog) t e ∧
      (e.IsOutside ∨ Ended prog ⟨view x.machine, x.stop⟩ e)

/-- Each turn of a machine that stands as in `R`, seen through `view`, is a statement. -/
structure Performs (E : Env ε) (view : Machine ε → Machine η) (hooks : IOHooks η)
    (prog : List Statement) (R : Machine ε → State η → Prop) : Prop where
  vm     : ∀ m, (view m).vm = m.vm
  stands : ∀ m t, R m t → Stands prog (view m) t
  turn   : ∀ m t, R m t → StepLoop.Upto R (fun x => Ended prog ⟨view x.machine, x.stop⟩)
    End.IsOutside (RetroVM.turn E m) (Source.turn hooks prog t)

section Performs

variable {E : Env ε} {view : Machine ε → Machine η} {hooks : IOHooks η} {prog : List Statement}
  {R : Machine ε → State η → Prop}

/-- Snapshots off. -/
theorem runs_performs (E : Env ε) (hfit : prog.length ≤ 2 ^ 18) :
    Performs E id E.hooks prog (Runs prog) where
  vm _ := rfl
  stands _ _ h := h.toStands
  turn _ _ h := turn_stands h hfit

/-- A watcher does not show. -/
theorem Stands.unwatched {ς : Type} {m : Machine (η × ς)} {k : Machine η} {t : State η}
    (ha : Alike ∅ (fun e io => e.1 = io) [] [] m k) (h : Stands prog k t) :
    Stands prog m.unwatched t where
  pc := (congrArg Cpu.pc ha.cpu).trans h.pc
  regs := (congrArg Cpu.regs ha.cpu).trans h.regs
  flags := (congrArg Cpu.flags ha.cpu).trans h.flags
  cycle := ha.cycleCount.trans h.cycle
  text a hlow := (ha.mem a (Set.notMem_empty a)).trans (h.text a hlow)
  data a hhigh := (ha.mem a (Set.notMem_empty a)).trans (h.data a hhigh)
  env := ha.env.trans h.env
  deeds := (calls_map_call _).trans (ha.calls.trans h.deeds)

theorem Ended.unwatched {ς : Type} {x : Exit (η × ς)} {y : Exit η} {e : End η}
    (hx : SameOutcome x y) (h : Ended prog y e) :
    Ended prog ⟨x.machine.unwatched, x.stop⟩ e := by
  cases e with
  | halted t | divZero t | threw t e => exact ⟨hx.stop.trans h.1, h.2.unwatched hx.machine⟩
  | outside t => exact h

/-- Snapshots on, with a sink that asks for no halt. -/
theorem watched_performs {ς : Type} (hooks : IOHooks η) (sink : Snapshot → VM → η → ς → ς)
    (mode : DispatchMode) (hfit : prog.length ≤ 2 ^ 18) :
    Performs ⟨hooks.beside ς, some (watcher sink), mode⟩ Machine.unwatched hooks prog
      fun m t => ∃ k, Watched m k ∧ Runs prog k t where
  vm _ := rfl
  stands := by
    rintro m t ⟨k, hw, h⟩
    exact h.toStands.unwatched hw.1
  turn := by
    rintro m t ⟨k, hw, h⟩
    have hplain : InStep prog (RetroVM.turn ⟨hooks, none, mode⟩ k) (Source.turn hooks prog t) :=
      turn_stands h hfit
    rw [turn_eq_cycle _ h.halted] at hplain
    rw [turn_eq_cycle _ hw.2.1]
    exact (watched_turn hooks sink mode hw).trans_upto hplain (fun _ k _ hw h => ⟨k, hw, h⟩)
      fun _ _ _ hx h => h.unwatched hx

end Performs

/-- A loaded program is where its text starts. -/
theorem start_runs (prog : List Statement) (env : ε) :
    Runs prog (.start { VM.init with mem := image prog } env) (.start env) where
  pc := rfl
  regs := rfl
  flags := rfl
  cycle := rfl
  text := fun _ _ => rfl
  data := fun a ha => by
    refine List.getD_eq_default _ _ ?_
    rw [imageOf_length, List.length_map]
    exact ha
  env := rfl
  deeds := rfl
  halted := rfl
  interval := rfl

theorem start_watched {ς : Type} (prog : List Statement) (k : UInt32) (env : η) (sn : ς) :
    ∃ m, Watched (.start ({ VM.init with mem := image prog }.setSnapshotInterval k) (env, sn)) m ∧
      Runs prog m (.start env) :=
  ⟨.start { VM.init with mem := image prog } env,
    ⟨⟨rfl, rfl, rfl, rfl, fun _ _ => rfl, rfl, rfl⟩, rfl, rfl⟩, start_runs prog env⟩

/-- The image of a program fits into memory. -/
theorem image_fits {prog : List Statement} (hfit : prog.length ≤ 2 ^ 18) :
    (imageOf (prog.map Statement.word)).length ≤ memSize := by
  have hmem : (memSize : Nat) = 4 * 2 ^ 18 := rfl
  rw [imageOf_length, List.length_map]
  omega

/-- Each jump is to a statement, each access beyond the text, and the last statement goes nowhere
but there. -/
structure Contained (prog : List Statement) : Prop where
  ne_nil : prog ≠ []
  jumps  : ∀ s ∈ prog, s.op = .opJump ∨ s.op = .opJnz →
    s.imm.toNat % 4 = 0 ∧ s.imm.toNat / 4 < prog.length
  beyond : ∀ s ∈ prog, s.op = .opLoad ∨ s.op = .opStore → Beyond prog.length s.imm
  last   : ∀ s, prog.getLast? = some s → s.op = .opHalt ∨ s.op = .opJump

section Contained

variable {hooks : IOHooks ε} {prog : List Statement} {t : State ε}

/-- What a turn of a contained program comes to: it is at a statement again, or it ended, and not
for want of a text. -/
def Within (prog : List Statement) : Except (End ε) (State ε) → Prop
  | .ok t => t.line < prog.length
  | .error e => ¬ e.IsOutside

theorem within_goto {imm : UInt32} (h : imm.toNat % 4 = 0 ∧ imm.toNat / 4 < prog.length) :
    Within prog (t.goto imm) := by
  unfold State.goto
  rw [if_pos h.1]
  exact h.2

theorem within_ask {q : Query} {dst : Fin 8} (h : t.line < prog.length) :
    Within prog (t.ask hooks q dst) := by
  unfold State.ask
  simp only
  generalize consult hooks q t.cycle t.env = c
  cases c.thrown with
  | none =>
    change (t.told dst c).line < _
    unfold State.told
    cases c.value <;> exact h
  | some e => exact not_false

/-- **A contained program stays at its statements.** -/
theorem Contained.turn (hc : Contained prog) (h : t.line < prog.length) :
    Within prog (turn hooks prog t) := by
  obtain ⟨s, hs⟩ : ∃ s, prog[t.line]? = some s := ⟨_, List.getElem?_eq_getElem h⟩
  have hmem : s ∈ prog := List.mem_of_getElem? hs
  -- but for the last statement, which goes nowhere, there is a next one
  have hnext : s.op ≠ .opHalt → s.op ≠ .opJump → (t.begin s).line < prog.length := by
    intro hhalt hjump
    by_contra hend
    have hend : prog.length - 1 = t.line := by
      have hle : prog.length ≤ t.line + 1 := Nat.not_lt.mp hend
      omega
    rcases hc.last s (by rw [List.getLast?_eq_getElem?, hend, hs]) with ho | ho
    · exact hhalt ho
    · exact hjump ho
  have hgoto := fun ho => within_goto (t := t.begin s) (hc.jumps s hmem ho)
  have hbeyond := hc.beyond s hmem
  unfold Source.turn
  rw [hs]
  unfold Source.perform
  simp only
  cases ho : s.op with
  | opHalt => exact not_false
  | opJump => exact hgoto (.inl ho)
  | opLoad =>
    simp only [if_pos (hbeyond (.inl ho))]
    exact hnext (by simp [ho]) (by simp [ho])
  | opStore =>
    simp only [if_pos (hbeyond (.inr ho))]
    exact hnext (by simp [ho]) (by simp [ho])
  | opAdd | opSub | opMul | opLi => exact hnext (by simp [ho]) (by simp [ho])
  | opDiv =>
    by_cases hz : (t.begin s).regs.get s.src = 0
    · simp only [if_pos hz]
      exact not_false
    · simp only [if_neg hz]
      exact hnext (by simp [ho]) (by simp [ho])
  | opJnz =>
    by_cases hz : (t.begin s).regs.get s.dst ≠ 0
    · simp only [if_pos hz]
      exact hgoto (.inr ho)
    · simp only [if_neg hz]
      exact hnext (by simp [ho]) (by simp [ho])
  | opIn | opRand => exact within_ask (hnext (by simp [ho]) (by simp [ho]))

theorem Contained.after (hc : Contained prog) (h : t.line < prog.length) (n : Nat) :
    Within prog (StepLoop.after (Source.turn hooks prog) n t) := by
  induction n generalizing t with
  | zero => exact h
  | succ n ih =>
    have hturn : Within prog (Source.turn hooks prog t) := hc.turn h
    cases ht : Source.turn hooks prog t with
    | ok t' =>
      rw [ht] at hturn
      rw [StepLoop.after_succ_ok ht]
      exact ih hturn
    | error e =>
      rw [ht] at hturn
      rw [StepLoop.after_succ_error ht]
      exact hturn

/-- The text is where it was loaded. -/
def TextIntact (prog : List Statement) (m : Machine ε) : Prop :=
  ∀ a : Addr, a.val < 4 * prog.length → m.mem a = image prog a

/-- However long it runs, the pc is at a statement and the text is as loaded; and it ends, if it
does, with `HALT`, a division by zero or a hook that throws. -/
structure RunsSafely (E : Env ε) (prog : List Statement) (m : Machine ε) : Prop where
  within : ∀ n m', StepLoop.after (RetroVM.turn E) n m = .ok m' →
    TextIntact prog m' ∧ ∃ i < prog.length, m'.state.pc = UInt32.ofNat (4 * i)
  ends   : ∀ x, StepLoop.Leaves (RetroVM.turn E) m x → TextIntact prog x.machine ∧
    (x.stop = .returned .normal ∨ x.stop = .returned .divZero ∨ ∃ e, x.stop = .threw e)

/-- **What performs a contained program runs safely.** -/
theorem Contained.runsSafely (hc : Contained prog) {δ : Type} {E : Env δ}
    {view : Machine δ → Machine ε} {R : Machine δ → State ε → Prop}
    (hp : Performs E view hooks prog R) {m : Machine δ} (h : t.line < prog.length) (hR : R m t) :
    RunsSafely E prog m := by
  have hwithin : ∀ n, Within prog (StepLoop.after (Source.turn hooks prog) n t) :=
    fun n => hc.after h n
  have intact : ∀ m t, Stands prog (view m) t → TextIntact prog m := by
    intro m t hs a ha
    rw [← hs.text a ha, Machine.mem, Machine.mem, hp.vm]
  refine ⟨fun n m' hm => ?_, fun x hx => ?_⟩
  · have hmatch := StepLoop.after_upto hp.turn n hR
    have hin := hwithin n
    cases ht : StepLoop.after (Source.turn hooks prog) n t with
    | ok t' =>
      rw [ht] at hmatch hin
      obtain ⟨u, hu, hr⟩ := hmatch.of_ok
      obtain rfl : u = m' := Except.ok.inj (hu.symm.trans hm)
      have hs := hp.stands u t' hr
      refine ⟨intact u t' hs, t'.line, hin, ?_⟩
      rw [← hs.pc, Machine.state, Machine.state, hp.vm]
    | error e =>
      rw [ht] at hmatch hin
      rcases hmatch.of_error with hout | ⟨x, hx, -⟩
      · exact absurd hout hin
      · cases hx.symm.trans hm
  · obtain ⟨e, ⟨n, hn⟩, he⟩ := StepLoop.leaves_upto hp.turn hR hx
    have hin := hwithin n
    rw [hn] at hin
    rcases he with hout | hended
    · exact absurd hout hin
    · cases e with
      | halted t => exact ⟨intact _ t hended.2, .inl hended.1⟩
      | divZero t => exact ⟨intact _ t hended.2, .inr (.inl hended.1)⟩
      | threw t e => exact ⟨intact _ t hended.2, .inr (.inr ⟨e, hended.1⟩)⟩
      | outside t => cases hended

/-- **A contained program runs safely.** Under any hooks and either dispatch mode, with snapshots
off or every `k` cycles, to any sink that asks for no halt: however long it runs, the pc is at one
of its statements and its text is as loaded; and it ends, if it does, with `HALT`, a division by
zero or a hook that throws, never on an unknown opcode. -/
theorem contained_program_is_safe (prog : List Statement) (hc : Contained prog)
    (hfit : prog.length ≤ 2 ^ 18) :
    ∃ vm, VM.boot (imageOf (prog.map Statement.word)) = some vm ∧
      (∀ (E : Env ε) (env : ε), RunsSafely E prog (.start vm env)) ∧
      ∀ (ς : Type) (hooks : IOHooks ε) (sink : Snapshot → VM → ε → ς → ς) (mode : DispatchMode)
        (k : UInt32) (env : ε) (sn : ς),
        RunsSafely ⟨hooks.beside ς, some (watcher sink), mode⟩ prog
          (.start (vm.setSnapshotInterval k) (env, sn)) := by
  have hstart : 0 < prog.length := List.length_pos_iff.mpr hc.ne_nil
  refine ⟨_, boot_of_le (image_fits hfit), fun E env => ?_, fun ς hooks sink mode k env sn => ?_⟩
  · exact hc.runsSafely (runs_performs E hfit) hstart (start_runs prog env)
  · exact hc.runsSafely (watched_performs hooks sink mode hfit) hstart
      (start_watched prog k env sn)

/-- A loop that stores behind itself for ever, with a snapshot every second cycle. -/
theorem contained_program_is_safe_loop :
    let li : Statement := ⟨.opLi, 2, 0, 7, by decide, by decide, by decide, by decide⟩
    let store : Statement := ⟨.opStore, 2, 0, 0x40, by decide, by decide, by decide, by decide⟩
    let jump : Statement := ⟨.opJump, 0, 0, 4, by decide, by decide, by decide, by decide⟩
    ∃ vm, VM.boot (imageOf ([li, store, jump].map Statement.word)) = some vm ∧
      RunsSafely (⟨IOHooks.beside Nat ⟨none, none, none⟩, some (watcher fun _ _ _ n => n + 1),
        .computedGoto⟩ : Env (Unit × Nat)) [li, store, jump]
        (.start (vm.setSnapshotInterval 2) ((), 0)) := by
  intro li store jump
  have hc : Contained [li, store, jump] := by
    refine ⟨List.cons_ne_nil _ _, by decide, by decide, ?_⟩
    rintro s ⟨⟩
    exact .inr rfl
  obtain ⟨vm, hvm, -, hsafe⟩ :=
    contained_program_is_safe (ε := Unit) [li, store, jump] hc (by decide)
  exact ⟨vm, hvm, hsafe Nat ⟨none, none, none⟩ (fun _ _ _ n => n + 1) .computedGoto 2 () 0⟩

end Contained

end RetroVM.Source

import RetroVM.Engine.Frame
import Mathlib.Algebra.Group.Int.Defs
import Mathlib.Data.Int.Cast.Basic
import Mathlib.Data.Nat.Bitwise

/-!
# Exact arithmetic and the flags (`vm.cpp`, `opcodes.hpp`)

`ADD`, `SUB`, `MUL` and `DIV` next to the operations on integers they stand for. `opcodes.hpp`
gives the carry flag one meaning for each (`carry / borrow / mul overflow / div remainder`): it is
clear when the stored word loses nothing of the exact result.

Results:
* `Arith.word_exact`: the stored word is the exact result modulo `2 ^ 32`.
* `turn_arith`: what a turn that executes one of the four does, on either dispatch path.
* **`exact_arithmetic_iff`**: it is what the header promises but for a `DIV` that leaves a
  remainder, which neither path flags.
-/

namespace RetroVM

variable {ε : Type}

/-! ## The four operations -/

/-- The instructions of the ALU. -/
inductive Arith where
  | add | sub | mul | div
  deriving DecidableEq

namespace Arith

/-- The opcode of an operation. -/
def opcode : Arith → Opcode
  | .add => .opAdd
  | .sub => .opSub
  | .mul => .opMul
  | .div => .opDiv

/-- The integer an operation stands for; the quotient is the floor. -/
def exact (op : Arith) (a b : UInt32) : Int :=
  match op with
  | .add => a.toNat + b.toNat
  | .sub => a.toNat - b.toNat
  | .mul => a.toNat * b.toNat
  | .div => (a.toNat : Int) / b.toNat

/-- Nothing is lost: no carry, no borrow, no dropped high bits, no remainder. -/
def Lossless (op : Arith) (a b : UInt32) : Prop :=
  match op with
  | .add => a.toNat + b.toNat < 2 ^ 32
  | .sub => b.toNat ≤ a.toNat
  | .mul => a.toNat * b.toNat < 2 ^ 32
  | .div => a.toNat % b.toNat = 0

/-- The word a handler stores. -/
def word (op : Arith) (a b : UInt32) : UInt32 :=
  match op with
  | .add => a + b
  | .sub => a - b
  | .mul => (a.toUInt64 * b.toUInt64).toUInt32
  | .div => a / b

/-- The condition a handler sets `FLAG_CF` on. -/
def Carries (op : Arith) (a b : UInt32) : Prop :=
  match op with
  | .add => a + b < a
  | .sub => a < b
  | .mul => a.toUInt64 * b.toUInt64 > 0xFFFFFFFF
  | .div => False

instance decidableLossless (op : Arith) (a b : UInt32) : Decidable (op.Lossless a b) :=
  match op with
  | .add => Nat.decLt _ _
  | .sub => Nat.decLe _ _
  | .mul => Nat.decLt _ _
  | .div => Nat.decEq _ _

instance decidableCarries (op : Arith) (a b : UInt32) : Decidable (op.Carries a b) :=
  match op with
  | .add => UInt32.decLt _ _
  | .sub => UInt32.decLt _ _
  | .mul => UInt64.decLt _ _
  | .div => instDecidableFalse

/-- **The stored word is the exact result modulo `2 ^ 32`.** -/
theorem word_exact (op : Arith) (a b : UInt32) :
    ((op.word a b).toNat : Int) = op.exact a b % 2 ^ 32 := by
  have ha := a.toNat_lt
  have hb := b.toNat_lt
  cases op with
  | add =>
    change ((a + b).toNat : Int) = (a.toNat + b.toNat) % 2 ^ 32
    rw [UInt32.toNat_add]
    omega
  | sub =>
    change ((a - b).toNat : Int) = (a.toNat - b.toNat) % 2 ^ 32
    rw [UInt32.toNat_sub]
    omega
  | mul =>
    change (((a.toUInt64 * b.toUInt64).toUInt32).toNat : Int) = (a.toNat * b.toNat) % 2 ^ 32
    rw [UInt64.toNat_toUInt32, UInt64.toNat_mul, UInt32.toNat_toUInt64, UInt32.toNat_toUInt64]
    push_cast
    omega
  | div =>
    change ((a / b).toNat : Int) = ((a.toNat / b.toNat : Nat) : Int) % 2 ^ 32
    rw [UInt32.toNat_div]
    have hle : a.toNat / b.toNat ≤ a.toNat := Nat.div_le_self a.toNat b.toNat
    generalize a.toNat / b.toNat = q at hle ⊢
    omega

/-- The 64-bit product of two words is exact. -/
theorem product_toNat (a b : UInt32) :
    (a.toUInt64 * b.toUInt64).toNat = a.toNat * b.toNat := by
  have hlt : a.toNat * b.toNat < 2 ^ 32 * 2 ^ 32 :=
    Nat.mul_lt_mul_of_lt_of_lt a.toNat_lt b.toNat_lt
  rw [UInt64.toNat_mul, UInt32.toNat_toUInt64, UInt32.toNat_toUInt64]
  exact Nat.mod_eq_of_lt hlt

/-- **The wrapped comparisons see exactly what was lost**, in `ADD`, `SUB` and `MUL`; `DIV` has
none, and sees nothing. -/
theorem not_carries_iff (op : Arith) (a b : UInt32) :
    ¬ op.Carries a b ↔ op = .div ∨ op.Lossless a b := by
  have ha := a.toNat_lt
  have hb := b.toNat_lt
  cases op with
  | add =>
    change ¬ a + b < a ↔ _ ∨ a.toNat + b.toNat < 2 ^ 32
    rw [UInt32.lt_iff_toNat_lt, UInt32.toNat_add]
    simp only [reduceCtorEq, false_or]
    omega
  | sub =>
    change ¬ a < b ↔ _ ∨ b.toNat ≤ a.toNat
    rw [UInt32.lt_iff_toNat_lt]
    simp only [reduceCtorEq, false_or]
    omega
  | mul =>
    change ¬ (0xFFFFFFFF : UInt64) < a.toUInt64 * b.toUInt64 ↔ _ ∨ a.toNat * b.toNat < 2 ^ 32
    rw [UInt64.lt_iff_toNat_lt, product_toNat]
    change ¬ 0xFFFFFFFF < a.toNat * b.toNat ↔ _
    simp only [reduceCtorEq, false_or]
    omega
  | div => exact ⟨fun _ => .inl rfl, fun _ => id⟩

end Arith

/-! ## Flags -/

/-- `ZF` is set iff the result is zero, `SF` iff its bit 31 is, `CF` iff the handler says so. -/
theorem flagsOf_bits (r : UInt32) (carry : Prop) [Decidable carry] :
    (flagsOf r carry &&& flagZF ≠ 0 ↔ r = 0) ∧
      (flagsOf r carry &&& flagSF ≠ 0 ↔ r &&& 0x80000000 ≠ 0) ∧
      (flagsOf r carry &&& flagCF ≠ 0 ↔ carry) := by
  unfold flagsOf
  by_cases hz : r = 0
  · subst hz
    by_cases hc : carry <;> simp only [hc, if_true, if_false, iff_true, iff_false] <;> decide
  · generalize hb : r &&& 0x80000000 = b
    by_cases hc : carry <;> by_cases hs : b = 0 <;>
      simp only [hz, hc, hs, ne_eq, not_true, not_false_iff, if_true, if_false, iff_true,
        iff_false] <;> decide

/-- Bit 31 as the mask reads it. -/
theorem and_sign_ne_zero (r : UInt32) : r &&& 0x80000000 ≠ 0 ↔ r.toNat.testBit 31 := by
  rw [Ne, ← UInt32.toNat_inj, UInt32.toNat_and]
  change ¬ r.toNat &&& 2 ^ 31 = 0 ↔ _
  rw [Nat.and_two_pow]
  cases r.toNat.testBit 31 <;> simp

/-! ## One turn -/

/-- The turn of `m` gets past its fetch and enters the handler with `u`: the head of the `switch`
loop finds the machine running, and no sink leaves the loop. -/
structure Enters (E : Env ε) (m u : Machine ε) : Prop where
  looped : E.dispatchMode = .naiveSwitch → m.state.halted = .running
  ticked : m.advance.snapTick E = .ok u

theorem Enters.turn_eq {E : Env ε} {m u : Machine ε} (h : Enters E m u) :
    turn E m = u.retire E m.fetched := by
  have hcycle : m.cycle E = u.retire E m.fetched := by
    unfold Machine.cycle
    rw [h.ticked]
  rw [← hcycle]
  unfold turn
  cases hmode : E.dispatchMode with
  | computedGoto => exact goto_turn_eq_cycle E m
  | naiveSwitch => exact switch_turn_eq_cycle E m (h.looped hmode)

/-- Up to its handler a turn moves pc and touches nothing an instruction computes on. -/
theorem Enters.frame {E : Env ε} {m u : Machine ε} (h : Enters E m u) :
    u.state.cpu = m.advance.state.cpu ∧ u.mem = m.mem ∧ u.state.sp = m.state.sp := by
  have hfired := fired_frame E m.advance.tick
  rcases snapTick_cases E m.advance with ⟨-, ht⟩ | ⟨-, -, ht⟩ | ⟨-, -, -, ht⟩ | ⟨-, -, -, ht⟩
  · obtain rfl := Except.ok.inj (h.ticked.symm.trans ht)
    exact ⟨rfl, rfl, rfl⟩
  · obtain rfl := Except.ok.inj (h.ticked.symm.trans ht)
    exact ⟨rfl, rfl, rfl⟩
  · obtain rfl := Except.ok.inj (h.ticked.symm.trans ht)
    refine ⟨?_, hfired.2.1, ?_⟩
    · rw [hfired.1]
      rfl
    · rw [hfired.1]
      rfl
  · rw [h.ticked] at ht
    cases ht

/-- `DIV` by zero: the turn returns `HALT_DIV_ZERO`, and what it found is as it was, pc at the
fetch address again. -/
structure Traps (m : Machine ε) (x : Exit ε) : Prop where
  stop  : x.stop = .returned .divZero
  regs  : x.machine.state.regs = m.state.regs
  flags : x.machine.state.flags = m.state.flags
  mem   : x.machine.mem = m.mem
  pc    : x.machine.state.pc = m.state.pc

namespace Arith

/-- `op dst, src` took `m` to `m'`: the result and the flags are those of the exact integer
result, and nothing else changed. -/
structure Computes (op : Arith) (dst src : Fin 8) (m m' : Machine ε) : Prop where
  result : ((m'.state.regs.get dst).toNat : Int) =
    op.exact (m.state.regs.get dst) (m.state.regs.get src) % 2 ^ 32
  zero   : m'.state.flags &&& flagZF ≠ 0 ↔ m'.state.regs.get dst = 0
  sign   : m'.state.flags &&& flagSF ≠ 0 ↔ (m'.state.regs.get dst).toNat.testBit 31
  carry  : m'.state.flags &&& flagCF = 0 ↔
    op.Lossless (m.state.regs.get dst) (m.state.regs.get src)
  regs   : ∀ k, k ≠ dst → m'.state.regs.get k = m.state.regs.get k
  mem    : m'.mem = m.mem
  sp     : m'.state.sp = m.state.sp

/-- The turn of a machine about to execute `op` does exact arithmetic, or traps on a division by
zero. -/
def Exact (op : Arith) (E : Env ε) (m : Machine ε) : Prop :=
  let dst := decodeDst m.fetched
  let src := decodeSrc m.fetched
  if op = .div ∧ m.state.regs.get src = 0 then ∃ x, turn E m = .error x ∧ Traps m x
  else ∃ m', turn E m = .ok m' ∧ op.Computes dst src m m'

/-- The registers and flags `op dst, src` computes. -/
def computed (op : Arith) (dst src : Fin 8) (c : Cpu) : Cpu :=
  let a := c.regs.get dst
  let b := c.regs.get src
  let r := op.word a b
  { c with regs := assign c.regs dst r, flags := flagsOf r (op.Carries a b) }

/-- The effect of the four instructions, in one line. -/
theorem effect_eq (op : Arith) (instr : UInt32) (mem : Memory) (c : Cpu) :
    (op.opcode.instr instr).effect mem c =
      if op = .div ∧ c.regs.get (decodeSrc instr) = 0 then .stop { c with pc := c.pc - 4 } .divZero
      else .next (op.computed (decodeDst instr) (decodeSrc instr) c) := by
  cases op with
  | div =>
    by_cases hb : c.regs.get (decodeSrc instr) = 0
    · rw [if_pos ⟨rfl, hb⟩]
      exact if_pos hb
    · rw [if_neg fun h => hb h.2]
      exact if_neg hb
  | _ =>
    rw [if_neg fun h => by cases h.1]
    rfl

end Arith

section Turn

variable {E : Env ε} {op : Arith} {m u : Machine ε}

/-- **A turn that executes one of the four**: the trap, or the computed registers. -/
theorem turn_arith (h : Enters E m u) (hop : decodeOp m.fetched = op.opcode.code) :
    turn E m =
      if op = .div ∧ m.state.regs.get (decodeSrc m.fetched) = 0 then
        .error ⟨((u.dispatched m.fetched).setState
          (u.state.setCpu { u.state.cpu with pc := u.state.pc - 4 })).setHalted .divZero,
          .returned .divZero⟩
      else .ok ((u.dispatched m.fetched).setState (u.state.setCpu
        (op.computed (decodeDst m.fetched) (decodeSrc m.fetched) u.state.cpu))) := by
  have hregs : u.state.cpu.regs = m.state.regs := congrArg Cpu.regs h.frame.1
  have hdecode : decode m.fetched = some (op.opcode.instr m.fetched) := by
    unfold decode
    rw [hop, ofCode_code]
    rfl
  rw [h.turn_eq]
  unfold Machine.retire
  rw [hdecode]
  change (u.dispatched m.fetched).apply E ((op.opcode.instr m.fetched).effect u.mem u.state.cpu) = _
  rw [op.effect_eq]
  by_cases hz : op = .div ∧ m.state.regs.get (decodeSrc m.fetched) = 0
  · rw [if_pos hz, if_pos (hregs ▸ hz)]
    rfl
  · rw [if_neg hz, if_neg (hregs ▸ hz)]
    rfl

/-- The computed registers are the exact ones, but for the carry flag of a `DIV`. -/
theorem computes_iff {dst src : Fin 8} {m' : Machine ε}
    (hregs : m'.state.regs = (op.computed dst src m.state.cpu).regs)
    (hflags : m'.state.flags = (op.computed dst src m.state.cpu).flags) (hmem : m'.mem = m.mem)
    (hsp : m'.state.sp = m.state.sp) :
    op.Computes dst src m m' ↔
      (op = .div → op.Lossless (m.state.regs.get dst) (m.state.regs.get src)) := by
  have hresult : m'.state.regs.get dst =
      op.word (m.state.regs.get dst) (m.state.regs.get src) := by
    rw [hregs]
    exact get_assign_self m.state.regs dst _
  obtain ⟨hzero, hsign, hcarry⟩ := flagsOf_bits
    (op.word (m.state.regs.get dst) (m.state.regs.get src))
    (op.Carries (m.state.regs.get dst) (m.state.regs.get src))
  have hclear : m'.state.flags &&& flagCF = 0 ↔
      op = .div ∨ op.Lossless (m.state.regs.get dst) (m.state.regs.get src) := by
    rw [← op.not_carries_iff, ← hcarry, not_not, hflags]
    rfl
  constructor
  · intro hc hdiv
    exact hc.carry.mp (hclear.mpr (.inl hdiv))
  · intro hl
    refine ⟨?_, ?_, ?_, ?_, ?_, hmem, hsp⟩
    · rw [hresult]
      exact op.word_exact _ _
    · rw [hflags, hresult]
      exact hzero
    · rw [hflags, hresult, ← and_sign_ne_zero]
      exact hsign
    · rw [hclear]
      exact ⟨fun h => h.elim hl id, .inr⟩
    · intro k hk
      rw [hregs]
      exact get_assign_ne m.state.regs _ (Ne.symm hk)

/-- A turn that does not trap goes on, with the exact registers iff a `DIV` loses nothing. -/
theorem turn_computes_iff (h : Enters E m u) (hop : decodeOp m.fetched = op.opcode.code)
    (hz : ¬ (op = .div ∧ m.state.regs.get (decodeSrc m.fetched) = 0)) :
    (∃ m', turn E m = .ok m' ∧ op.Computes (decodeDst m.fetched) (decodeSrc m.fetched) m m') ↔
      (op = .div → op.Lossless (m.state.regs.get (decodeDst m.fetched))
        (m.state.regs.get (decodeSrc m.fetched))) := by
  obtain ⟨hcpu, hmem, hsp⟩ := h.frame
  have hturn := turn_arith h hop
  rw [if_neg hz] at hturn
  rw [hturn]
  have hcomputes : op.Computes (decodeDst m.fetched) (decodeSrc m.fetched) m
      ((u.dispatched m.fetched).setState (u.state.setCpu
        (op.computed (decodeDst m.fetched) (decodeSrc m.fetched) u.state.cpu))) ↔ _ :=
    computes_iff (by rw [hcpu]; rfl) (by rw [hcpu]; rfl) hmem hsp
  rw [← hcomputes]
  constructor
  · rintro ⟨m', heq, hc⟩
    exact Except.ok.inj heq ▸ hc
  · exact fun hc => ⟨_, rfl, hc⟩

/-- **Exact arithmetic, but for the remainder of a `DIV`.** Whatever is wired to the VM and
whichever path dispatches, a turn that executes one of the four does what the header promises iff
it is not a division that leaves a remainder. -/
theorem exact_arithmetic_iff (h : Enters E m u) (hop : decodeOp m.fetched = op.opcode.code) :
    op.Exact E m ↔
      ¬ (op = .div ∧ m.state.regs.get (decodeSrc m.fetched) ≠ 0 ∧
        (m.state.regs.get (decodeDst m.fetched)).toNat %
          (m.state.regs.get (decodeSrc m.fetched)).toNat ≠ 0) := by
  obtain ⟨hcpu, hmem, hsp⟩ := h.frame
  have hturn := turn_arith h hop
  unfold Arith.Exact
  by_cases hz : op = .div ∧ m.state.regs.get (decodeSrc m.fetched) = 0
  · rw [if_pos hz] at hturn
    simp only [if_pos hz]
    refine ⟨fun _ hr => hr.2.1 hz.2, fun _ => ⟨_, hturn, rfl, ?_, ?_, hmem, ?_⟩⟩
    · exact congrArg Cpu.regs hcpu
    · exact congrArg Cpu.flags hcpu
    · -- the fetch added 4
      have hpc : u.state.pc = m.state.pc + 4 := congrArg Cpu.pc hcpu
      change u.state.pc - 4 = m.state.pc
      rw [hpc, UInt32.add_sub_cancel]
  · simp only [if_neg hz]
    rw [turn_computes_iff h hop hz]
    constructor
    · rintro hl ⟨rfl, -, hrem⟩
      exact hrem (hl rfl)
    · rintro hr rfl
      exact not_not.mp fun hrem => hr ⟨rfl, fun hb => hz ⟨rfl, hb⟩, hrem⟩

end Turn

/-! ## Seven by two -/

/-- A VM with no hooks and no sink. -/
def bareEnv : Env Unit := ⟨⟨none, none, none⟩, none, .computedGoto⟩

/-- `DIV R0, R1` fetched with 7 in `R0` and `r1` in `R1`. -/
def dividing (r1 : UInt32) : Machine Unit :=
  let program := imageOf [encode Opcode.opDiv.code 0 1 0]
  .start ⟨fun a => program.getD a 0, { regs := #v[7, r1, 0, 0, 0, 0, 0, 0] }, []⟩ ()

/-- The header's carry flag is not what `DIV` computes: 7 by 2 leaves 1, and `CF` is clear. -/
theorem div_drops_remainder :
    Enters bareEnv (dividing 2) (dividing 2).advance ∧
      decodeOp (dividing 2).fetched = Arith.div.opcode.code ∧
      ¬ Arith.div.Exact bareEnv (dividing 2) := by
  have hop : decodeOp (dividing 2).fetched = Arith.div.opcode.code := by decide
  have henters : Enters bareEnv (dividing 2) (dividing 2).advance := ⟨fun h => (by cases h), rfl⟩
  have hturn := turn_arith henters hop
  refine ⟨henters, hop, fun hex => ?_⟩
  unfold Arith.Exact at hex
  rw [hturn] at hex
  obtain ⟨m', heq, hc⟩ := hex
  cases heq
  exact absurd (hc.carry.mp (by decide)) (by decide)

/-- Without a remainder the flags are exact. -/
theorem div_without_remainder : Arith.div.Exact bareEnv (dividing 7) :=
  (exact_arithmetic_iff (u := (dividing 7).advance) ⟨fun h => (by cases h), rfl⟩ (by decide)).mpr
    fun h => h.2.2 (by decide)

end RetroVM

import Mathlib.Algebra.Group.Nat.Defs
import Mathlib.Tactic.Common

/-!
# Opcode definitions and the instruction codec (`include/retrovm/opcodes.hpp`)

A 32-bit instruction word is `opcode(6) | dst(3) | src(3) | imm20`. The register extractors return
an index of the register file: `decodeDst` and `decodeSrc` mask three bits, and the bound is in
the type.
-/

namespace RetroVM

/-- `enum Opcode`, its sentinel `OP_COUNT` left out. -/
inductive Opcode where
  | opHalt | opLoad | opStore | opAdd | opSub | opMul
  | opDiv | opJump | opJnz | opIn | opRand | opLi
  deriving DecidableEq, Repr

/-- The opcode's number, at the width `decode_op` returns it. -/
def Opcode.code : Opcode → UInt32
  | .opHalt => 0x00
  | .opLoad => 0x01
  | .opStore => 0x02
  | .opAdd => 0x03
  | .opSub => 0x04
  | .opMul => 0x05
  | .opDiv => 0x06
  | .opJump => 0x07
  | .opJnz => 0x08
  | .opIn => 0x09
  | .opRand => 0x0A
  | .opLi => 0x0B

/-- The opcode's number, at the enum's underlying type. -/
def Opcode.byte (op : Opcode) : UInt8 := op.code.toUInt8

/-- `OP_COUNT`. -/
def opCount : UInt32 := 0x0C

/-- `encode`. -/
def encode (op dst src imm : UInt32) : UInt32 :=
  ((op &&& 0x3F) <<< 26) ||| ((dst &&& 0x07) <<< 23) ||| ((src &&& 0x07) <<< 20) |||
    (imm &&& 0xFFFFF)

/-- `decode_op`. -/
def decodeOp (i : UInt32) : UInt32 := (i >>> 26) &&& 0x3F

theorem and_seven_lt (x : UInt32) : (x &&& 0x07).toNat < 8 := by
  rw [UInt32.toNat_and]
  exact Nat.lt_of_le_of_lt Nat.and_le_right (by decide)

/-- `decode_dst`. -/
def decodeDst (i : UInt32) : Fin 8 := ⟨((i >>> 23) &&& 0x07).toNat, and_seven_lt _⟩

/-- `decode_src`. -/
def decodeSrc (i : UInt32) : Fin 8 := ⟨((i >>> 20) &&& 0x07).toNat, and_seven_lt _⟩

/-- `decode_imm`. -/
def decodeImm (i : UInt32) : UInt32 := i &&& 0xFFFFF

/-! ## What is decoded of what was encoded -/

section Codec

variable {op dst src imm : UInt32}

/-- A word is the sum of its fields, each in its place. -/
theorem encode_toNat (ho : op.toNat < 2 ^ 6) (hd : dst.toNat < 2 ^ 3) (hs : src.toNat < 2 ^ 3)
    (hi : imm.toNat < 2 ^ 20) :
    (encode op dst src imm).toNat =
      op.toNat * 2 ^ 26 + (dst.toNat * 2 ^ 23 + (src.toNat * 2 ^ 20 + imm.toNat)) := by
  have mask : ∀ (x m : UInt32) (k : Nat), m.toNat = 2 ^ k - 1 → x.toNat < 2 ^ k →
      x &&& m = x := by
    intro x m k hm hx
    apply UInt32.toNat.inj
    rw [UInt32.toNat_and, hm, Nat.and_two_pow_sub_one_eq_mod, Nat.mod_eq_of_lt hx]
  unfold encode
  rw [mask op _ 6 rfl ho, mask dst _ 3 rfl hd, mask src _ 3 rfl hs, mask imm _ 20 rfl hi,
    UInt32.or_assoc, UInt32.or_assoc]
  simp only [UInt32.toNat_or, UInt32.toNat_shiftLeft]
  change (op.toNat <<< 26 % 2 ^ 32) ||| ((dst.toNat <<< 23 % 2 ^ 32) |||
    ((src.toNat <<< 20 % 2 ^ 32) ||| imm.toNat)) = _
  simp only [Nat.shiftLeft_eq]
  rw [Nat.mod_eq_of_lt (by omega), Nat.mod_eq_of_lt (by omega), Nat.mod_eq_of_lt (by omega)]
  -- each field is below the place of the next
  rw [← Nat.shiftLeft_eq src.toNat, ← Nat.shiftLeft_add_eq_or_of_lt hi, Nat.shiftLeft_eq,
    ← Nat.shiftLeft_eq dst.toNat, ← Nat.shiftLeft_add_eq_or_of_lt (by omega), Nat.shiftLeft_eq,
    ← Nat.shiftLeft_eq op.toNat, ← Nat.shiftLeft_add_eq_or_of_lt (by omega), Nat.shiftLeft_eq]

variable (ho : op.toNat < 2 ^ 6) (hd : dst.toNat < 2 ^ 3) (hs : src.toNat < 2 ^ 3)
  (hi : imm.toNat < 2 ^ 20)

include ho hd hs hi

theorem decodeOp_encode : decodeOp (encode op dst src imm) = op := by
  unfold decodeOp
  apply UInt32.toNat.inj
  rw [UInt32.toNat_and, UInt32.toNat_shiftRight, encode_toNat ho hd hs hi]
  change (_ >>> 26) &&& (2 ^ 6 - 1) = _
  rw [Nat.and_two_pow_sub_one_eq_mod, Nat.shiftRight_eq_div_pow]
  omega

theorem decodeDst_encode : (decodeDst (encode op dst src imm)).val = dst.toNat := by
  change ((encode op dst src imm >>> 23) &&& 7).toNat = _
  rw [UInt32.toNat_and, UInt32.toNat_shiftRight, encode_toNat ho hd hs hi]
  change (_ >>> 23) &&& (2 ^ 3 - 1) = _
  rw [Nat.and_two_pow_sub_one_eq_mod, Nat.shiftRight_eq_div_pow]
  omega

theorem decodeSrc_encode : (decodeSrc (encode op dst src imm)).val = src.toNat := by
  change ((encode op dst src imm >>> 20) &&& 7).toNat = _
  rw [UInt32.toNat_and, UInt32.toNat_shiftRight, encode_toNat ho hd hs hi]
  change (_ >>> 20) &&& (2 ^ 3 - 1) = _
  rw [Nat.and_two_pow_sub_one_eq_mod, Nat.shiftRight_eq_div_pow]
  omega

theorem decodeImm_encode : decodeImm (encode op dst src imm) = imm := by
  unfold decodeImm
  apply UInt32.toNat.inj
  rw [UInt32.toNat_and, encode_toNat ho hd hs hi]
  change _ &&& (2 ^ 20 - 1) = _
  rw [Nat.and_two_pow_sub_one_eq_mod]
  omega

end Codec

/-- `enum HaltReason`. -/
inductive HaltReason where
  | running | normal | divZero | unknownOp | traceEof | diverged | checkpoint | breakpoint | step
  deriving DecidableEq, Repr

/-- The reason's number, as `dump_state` prints it and a `.state` file stores it. -/
def HaltReason.code : HaltReason → UInt32
  | .running => 0
  | .normal => 1
  | .divZero => 2
  | .unknownOp => 3
  | .traceEof => 4
  | .diverged => 5
  | .checkpoint => 6
  | .breakpoint => 7
  | .step => 8

/-- `FLAG_ZF`. -/
def flagZF : UInt32 := (1 : UInt32) <<< 0

/-- `FLAG_CF`. -/
def flagCF : UInt32 := (1 : UInt32) <<< 1

/-- `FLAG_SF`. -/
def flagSF : UInt32 := (1 : UInt32) <<< 2

/-- Every opcode below `OP_COUNT` is the number of one of the twelve. -/
theorem exists_code_of_lt {op : UInt32} (h : op < opCount) : ∃ o : Opcode, o.code = op := by
  have hlt : op.toNat < 12 := UInt32.lt_iff_toNat_lt.mp h
  have hop : op = UInt32.ofNat op.toNat := (UInt32.ofNat_toNat).symm
  rw [hop]
  generalize op.toNat = n at hlt
  match n, hlt with
  | 0, _ => exact ⟨.opHalt, rfl⟩
  | 1, _ => exact ⟨.opLoad, rfl⟩
  | 2, _ => exact ⟨.opStore, rfl⟩
  | 3, _ => exact ⟨.opAdd, rfl⟩
  | 4, _ => exact ⟨.opSub, rfl⟩
  | 5, _ => exact ⟨.opMul, rfl⟩
  | 6, _ => exact ⟨.opDiv, rfl⟩
  | 7, _ => exact ⟨.opJump, rfl⟩
  | 8, _ => exact ⟨.opJnz, rfl⟩
  | 9, _ => exact ⟨.opIn, rfl⟩
  | 10, _ => exact ⟨.opRand, rfl⟩
  | 11, _ => exact ⟨.opLi, rfl⟩

theorem code_lt_opCount (o : Opcode) : o.code < opCount := by
  cases o <;> decide

@[simp] theorem code_inj {o o' : Opcode} : o.code = o'.code ↔ o = o' := by
  refine ⟨fun h => ?_, fun h => congrArg _ h⟩
  cases o <;> cases o' <;> first | rfl | exact absurd h (by decide)

end RetroVM

import RetroVM.Engine.Opcodes
import Mathlib.Logic.Function.Basic
import Mathlib.Data.Set.Insert

/-!
# The 1 MiB arena (`vm.cpp`, `mem_load_u32` / `mem_store_u32`)

The arena is a function from the `MEM_SIZE` cells to bytes. Every access of the source goes through
`& MEM_MASK`; `arena` is that mask, returned as an index of the arena, so no access can leave it.
`cells addr` are the four cells a 32-bit access at `addr` touches; near the end of the arena they
wrap, and two accesses overlap whenever their cells do.
-/

namespace RetroVM

/-- `MEM_SIZE`. -/
abbrev memSize : Nat := 0x100000

/-- `MEM_MASK`. -/
def memMask : UInt32 := 0xFFFFF

/-- An index of `mem_`. -/
abbrev Addr := Fin memSize

/-- `mem_`. -/
abbrev Memory := Addr → UInt8

theorem and_memMask_lt (addr : UInt32) : (addr &&& memMask).toNat < memSize := by
  rw [UInt32.toNat_and]
  exact Nat.lt_of_le_of_lt Nat.and_le_right (by decide)

/-- `addr & MEM_MASK`. -/
def arena (addr : UInt32) : Addr := ⟨(addr &&& memMask).toNat, and_memMask_lt addr⟩

/-- `mem_load_u32`. -/
def memLoadU32 (m : Memory) (addr : UInt32) : UInt32 :=
  let addr := addr &&& memMask
  let b0 := (m (arena addr)).toUInt32
  let b1 := (m (arena (addr + 1))).toUInt32
  let b2 := (m (arena (addr + 2))).toUInt32
  let b3 := (m (arena (addr + 3))).toUInt32
  b0 ||| (b1 <<< 8) ||| (b2 <<< 16) ||| (b3 <<< 24)

/-- The four byte writes `mem_store_u32` and `apply_old_value` share. -/
def pokeU32 (m : Memory) (addr v : UInt32) : Memory :=
  let m := Function.update m (arena addr) v.toUInt8
  let m := Function.update m (arena (addr + 1)) (v >>> 8).toUInt8
  let m := Function.update m (arena (addr + 2)) (v >>> 16).toUInt8
  Function.update m (arena (addr + 3)) (v >>> 24).toUInt8

/-- `mem_store_u32`. -/
def memStoreU32 (m : Memory) (addr v : UInt32) : Memory := pokeU32 m (addr &&& memMask) v

/-- The cells a 32-bit access at `addr` touches. -/
def cells (addr : UInt32) : Set Addr :=
  {arena addr, arena (addr + 1), arena (addr + 2), arena (addr + 3)}

/-! ## Masking -/

theorem and_memMask_and (a : UInt32) : (a &&& memMask) &&& memMask = a &&& memMask := by
  rw [UInt32.and_assoc, UInt32.and_self]

/-- Masking before an offset is added changes nothing. -/
theorem arena_and_add (a k : UInt32) : arena ((a &&& memMask) + k) = arena (a + k) := by
  have h : ((a &&& memMask) + k) &&& memMask = (a + k) &&& memMask := by
    apply UInt32.toNat.inj
    have e : memMask.toNat = 2 ^ 20 - 1 := by decide
    simp only [UInt32.toNat_and, UInt32.toNat_add, e, Nat.and_two_pow_sub_one_eq_mod]
    omega
  unfold arena
  simp only [h]

theorem arena_and (a : UInt32) : arena (a &&& memMask) = arena a := by
  unfold arena
  simp only [and_memMask_and]

/-! ## Bytes of a word -/

section Bytes

variable (b0 b1 b2 b3 : UInt8)

/-- The word with these four bytes, lowest first. -/
def word : UInt32 :=
  b0.toUInt32 ||| (b1.toUInt32 <<< 8) ||| (b2.toUInt32 <<< 16) ||| (b3.toUInt32 <<< 24)

theorem word_byte_zero : (word b0 b1 b2 b3).toUInt8 = b0 := by
  unfold word
  apply UInt8.toBitVec_inj.mp
  ext i hi
  simp

theorem word_byte_one : (word b0 b1 b2 b3 >>> 8).toUInt8 = b1 := by
  unfold word
  apply UInt8.toBitVec_inj.mp
  ext i hi
  simp
  grind

theorem word_byte_two : (word b0 b1 b2 b3 >>> 16).toUInt8 = b2 := by
  unfold word
  apply UInt8.toBitVec_inj.mp
  ext i hi
  simp
  grind

theorem word_byte_three : (word b0 b1 b2 b3 >>> 24).toUInt8 = b3 := by
  unfold word
  apply UInt8.toBitVec_inj.mp
  ext i hi
  simp
  grind

end Bytes

/-- A load at a masked address, byte by byte. -/
theorem memLoadU32_eq (m : Memory) (addr : UInt32) :
    memLoadU32 m addr =
      word (m (arena addr)) (m (arena (addr + 1))) (m (arena (addr + 2)))
        (m (arena (addr + 3))) := by
  unfold memLoadU32 word
  simp only [arena_and, arena_and_add]

/-! ## Loads and stores -/

/-- **A load reads only its cells.** -/
theorem memLoadU32_congr {m m' : Memory} {addr : UInt32} (h : ∀ a ∈ cells addr, m a = m' a) :
    memLoadU32 m addr = memLoadU32 m' addr := by
  unfold cells at h
  rw [memLoadU32_eq, memLoadU32_eq, h _ (by simp), h (arena (addr + 1)) (by simp),
    h (arena (addr + 2)) (by simp), h (arena (addr + 3)) (by simp)]

theorem pokeU32_apply (m : Memory) (addr v : UInt32) (a : Addr) :
    pokeU32 m addr v a =
      if a = arena (addr + 3) then (v >>> 24).toUInt8
      else if a = arena (addr + 2) then (v >>> 16).toUInt8
      else if a = arena (addr + 1) then (v >>> 8).toUInt8
      else if a = arena addr then v.toUInt8
      else m a := by
  unfold pokeU32
  simp only [Function.update_apply]

theorem memStoreU32_eq (m : Memory) (addr v : UInt32) :
    memStoreU32 m addr v = pokeU32 m addr v := by
  funext a
  unfold memStoreU32
  rw [pokeU32_apply, pokeU32_apply, arena_and, arena_and_add, arena_and_add, arena_and_add]

theorem mem_cells {addr : UInt32} {a : Addr} :
    a ∈ cells addr ↔
      a = arena (addr + 3) ∨ a = arena (addr + 2) ∨ a = arena (addr + 1) ∨ a = arena addr := by
  unfold cells
  simp only [Set.mem_insert_iff, Set.mem_singleton_iff]
  grind

/-- **A store writes only its cells.** -/
theorem pokeU32_of_notMem {m : Memory} {addr v : UInt32} {a : Addr} (h : a ∉ cells addr) :
    pokeU32 m addr v a = m a := by
  rw [mem_cells, not_or, not_or, not_or] at h
  rw [pokeU32_apply, if_neg h.1, if_neg h.2.1, if_neg h.2.2.1, if_neg h.2.2.2]

/-- **A store decides its cells**, whatever was there. -/
theorem pokeU32_of_mem {addr v : UInt32} {a : Addr} (m m' : Memory) (h : a ∈ cells addr) :
    pokeU32 m addr v a = pokeU32 m' addr v a := by
  rw [pokeU32_apply, pokeU32_apply]
  rcases mem_cells.mp h with h | h | h | h <;> simp only [h, if_true]

/-- The second of two stores to one address hides the first. -/
theorem pokeU32_pokeU32 (m : Memory) (addr v w : UInt32) :
    pokeU32 (pokeU32 m addr v) addr w = pokeU32 m addr w := by
  funext a
  by_cases h : a ∈ cells addr
  · exact pokeU32_of_mem _ _ h
  · rw [pokeU32_of_notMem h, pokeU32_of_notMem h, pokeU32_of_notMem h]

/-- Storing what is already there changes nothing. -/
theorem pokeU32_memLoadU32 (m : Memory) (addr : UInt32) :
    pokeU32 m addr (memLoadU32 m addr) = m := by
  funext a
  rw [pokeU32_apply, memLoadU32_eq, word_byte_zero, word_byte_one, word_byte_two, word_byte_three]
  split
  · next h => rw [h]
  split
  · next h => rw [h]
  split
  · next h => rw [h]
  split
  · next h => rw [h]
  · rfl

/-! ## Pages and offsets -/

/-- The 4 KiB page of an address, as a `MemDelta` stores it. -/
def pageOf (imm : UInt32) : UInt8 := ((imm >>> 12) &&& 0xFF).toUInt8

/-- The offset of an address in its page, as a `MemDelta` stores it. -/
def offsetOf (imm : UInt32) : UInt16 := (imm &&& 0xFFF).toUInt16

/-- The address `apply_old_value` rebuilds. -/
def joinAddr (page : UInt8) (offset : UInt16) : UInt32 :=
  (page.toUInt32 <<< 12) ||| offset.toUInt32

/-- **Page and offset lose nothing** of a 20-bit immediate. -/
theorem joinAddr_split {imm : UInt32} (h : imm.toNat < memSize) :
    joinAddr (pageOf imm) (offsetOf imm) = imm := by
  have h20 : imm.toNat < 1048576 := h
  have h8 : ∀ x : Nat, x &&& 255 = x % 256 := fun x => Nat.and_two_pow_sub_one_eq_mod x 8
  have h12 : ∀ x : Nat, x &&& 4095 = x % 4096 := fun x => Nat.and_two_pow_sub_one_eq_mod x 12
  have hp : (pageOf imm).toNat = imm.toNat / 4096 := by
    simp [pageOf, h8, Nat.shiftRight_eq_div_pow]
    omega
  have ho : (offsetOf imm).toNat = imm.toNat % 4096 := by
    simp [offsetOf, h12]
  have e12 : UInt32.toNat 12 % 32 = 12 := by decide
  have hs : (imm.toNat / 4096) <<< 12 % 2 ^ 32 = (imm.toNat / 4096) <<< 12 := by
    rw [Nat.shiftLeft_eq]
    omega
  apply UInt32.toNat.inj
  simp only [joinAddr, UInt32.toNat_or, UInt32.toNat_shiftLeft, UInt8.toNat_toUInt32,
    UInt16.toNat_toUInt32, hp, ho, e12]
  rw [hs, ← Nat.shiftLeft_add_eq_or_of_lt (Nat.mod_lt _ (by decide)), Nat.shiftLeft_eq]
  omega

theorem decodeImm_lt (instr : UInt32) : (decodeImm instr).toNat < memSize :=
  and_memMask_lt instr

end RetroVM

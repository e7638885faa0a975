import RetroVM.Engine.Memory

/-!
# VM state, memory deltas and snapshots (`include/retrovm/vm.hpp`, `vm.cpp`)

`VMState` is the 64-byte hot state, `VM` the whole object without its hooks: the arena, the hot
state and the pending delta log. The log is kept as the source's vector is, newest entry last.

Results:
* `boot_of_le`, `boot_eq_some`: an image that fits the arena loads, and what it loads to.
* `fresh_undo_store`: the delta a `STORE` logs undoes that `STORE`.
-/

namespace RetroVM

/-- `regs[dst] = v`. -/
def assign (regs : Vector UInt32 8) (dst : Fin 8) (v : UInt32) : Vector UInt32 8 := regs.set dst v

theorem get_assign_self (regs : Vector UInt32 8) (dst : Fin 8) (v : UInt32) :
    (assign regs dst v).get dst = v := Vector.getElem_set_self dst.isLt

theorem get_assign_ne (regs : Vector UInt32 8) {dst k : Fin 8} (v : UInt32) (h : dst ≠ k) :
    (assign regs dst v).get k = regs.get k := by
  have hne : dst.val ≠ k.val := fun e => h (Fin.ext e)
  exact Vector.getElem_set_ne dst.isLt k.isLt hne

/-- `struct VMState`. -/
@[ext] structure VMState where
  cycleCount   : UInt64 := 0
  regs         : Vector UInt32 8 := Vector.replicate 8 0
  pc           : UInt32 := 0
  sp           : UInt32 := 0
  flags        : UInt32 := 0
  halted       : HaltReason := .running
  snapInterval : UInt32 := 0
  snapTimer    : UInt32 := 0
  deriving DecidableEq

/-- `struct MemDelta`. -/
structure MemDelta where
  runCount : UInt8
  page     : UInt8
  offset   : UInt16
  oldValue : UInt32
  deriving DecidableEq

/-- `struct Snapshot`. -/
structure Snapshot where
  cycleCount : UInt64
  regs       : Vector UInt32 8
  pc         : UInt32
  sp         : UInt32
  flags      : UInt32
  halted     : HaltReason
  deltas     : List MemDelta
  deriving DecidableEq

/-- `class VM`, hooks and sink apart: the arena, the hot state, the pending delta log. -/
@[ext] structure VM where
  mem    : Memory
  state  : VMState
  deltas : List MemDelta

namespace VM

/-- The object `VM()` builds, which is also what `reset_state` leaves. -/
def init : VM where
  mem := fun _ => 0
  state := { sp := UInt32.ofNat (memSize - 4) }
  deltas := []

/-- `load_program`: `none` for a program that exceeds `MEM_SIZE`. -/
def loadProgram (bytes : List UInt8) (vm : VM) : Option VM :=
  if memSize < bytes.length then none
  else some { vm with mem := fun a => bytes.getD a (vm.mem a) }

/-- A fresh VM with `bytes` loaded, as every command starts. -/
def boot (bytes : List UInt8) : Option VM := init.loadProgram bytes

/-- `set_state`. -/
def setState (vm : VM) (s : VMState) : VM := { vm with state := s }

/-- `request_halt`. -/
def requestHalt (vm : VM) (r : HaltReason) : VM :=
  { vm with state := { vm.state with halted := r } }

/-- `set_snapshot_interval`. -/
def setSnapshotInterval (vm : VM) (cycles : UInt32) : VM :=
  { vm with state := { vm.state with snapInterval := cycles, snapTimer := cycles } }

/-- `apply_old_value`. -/
def applyOldValue (vm : VM) (d : MemDelta) : VM :=
  { vm with mem := pokeU32 vm.mem (joinAddr d.page d.offset) d.oldValue }

/-- The snapshot `take_snapshot` returns. -/
def snapshot (vm : VM) : Snapshot where
  cycleCount := vm.state.cycleCount
  regs := vm.state.regs
  pc := vm.state.pc
  sp := vm.state.sp
  flags := vm.state.flags
  halted := vm.state.halted
  deltas := vm.deltas

/-- `take_snapshot`: the snapshot, and the VM with its log drained. -/
def takeSnapshot (vm : VM) : Snapshot × VM := (vm.snapshot, { vm with deltas := [] })

end VM

/-- An image that fits the arena loads. -/
theorem boot_of_le {bytes : List UInt8} (h : bytes.length ≤ memSize) :
    VM.boot bytes = some { VM.init with mem := fun a => bytes.getD a 0 } :=
  if_neg (Nat.not_lt.mpr h)

/-- A loaded VM differs from the one it was loaded into in memory only. -/
theorem boot_eq_some {bytes : List UInt8} {vm : VM} (h : VM.boot bytes = some vm) :
    vm = { VM.init with mem := fun a => bytes.getD a 0 } := by
  unfold VM.boot VM.loadProgram at h
  split at h
  · cases h
  · exact (Option.some.inj h).symm

/-- A booted VM is running, with snapshots off. -/
theorem boot_running {bytes : List UInt8} {vm : VM} (h : VM.boot bytes = some vm) :
    vm.state.halted = .running ∧ vm.state.snapInterval = 0 := by
  rw [boot_eq_some h]
  exact ⟨rfl, rfl⟩

/-- A `.bin` image: its instruction words, little-endian. -/
def imageOf (words : List UInt32) : List UInt8 :=
  words.flatMap fun (w : UInt32) =>
    [w.toUInt8, (w >>> 8).toUInt8, (w >>> 16).toUInt8, (w >>> 24).toUInt8]

/-! ## Undoing one store -/

/-- The delta `STORE` pushes for the cell at `imm`. -/
def MemDelta.fresh (mem : Memory) (imm : UInt32) : MemDelta where
  runCount := 1
  page := pageOf imm
  offset := offsetOf imm
  oldValue := memLoadU32 mem imm

/-- The memory half of `apply_old_value`. -/
def MemDelta.undo (d : MemDelta) (m : Memory) : Memory :=
  pokeU32 m (joinAddr d.page d.offset) d.oldValue

/-- The cell a delta is about. -/
def MemDelta.addr (d : MemDelta) : UInt32 := joinAddr d.page d.offset

/-- **The delta a `STORE` logs undoes that `STORE`**, overlapping and wrapping cells included. -/
theorem fresh_undo_store {mem : Memory} {imm v : UInt32} (h : imm.toNat < memSize) :
    (MemDelta.fresh mem imm).undo (memStoreU32 mem imm v) = mem := by
  unfold MemDelta.undo MemDelta.fresh
  rw [joinAddr_split h, memStoreU32_eq, pokeU32_pokeU32, pokeU32_memLoadU32]

/-- A delta about the same cell undoes a further `STORE` there as well as the first one. -/
theorem undo_store_of_addr {mem : Memory} {d : MemDelta} {imm v : UInt32} (h : d.addr = imm) :
    d.undo (memStoreU32 mem imm v) = d.undo mem := by
  unfold MemDelta.undo
  rw [show joinAddr d.page d.offset = imm from h, memStoreU32_eq, pokeU32_pokeU32]

end RetroVM

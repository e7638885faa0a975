import RetroVM.Engine.Words

/-!
# The `.state` format (`include/retrovm/checkpoint.hpp`, `checkpoint.cpp`)

A `.state` file is the magic, then fourteen little-endian words: version, frame index, halt tag,
flags, the eight registers, pc and sp; 64 bytes in all. The cycle count and the memory are not
among them. The halt tag is kept as the number it is on disk, since a load casts whatever it finds
there.

Results:
* **`checkpointLoad_checkpointSave`**: loading what was saved gives it back.
-/

namespace RetroVM

/-! ## Checkpoints -/

/-- `struct CheckpointState`. -/
@[ext] structure CheckpointState where
  frameIndex : UInt32
  halted     : UInt32
  flags      : UInt32
  regs       : Vector UInt32 8
  pc         : UInt32
  sp         : UInt32
  deriving DecidableEq

/-- `"RVMSTATE"`. -/
def checkpointMagic : List UInt8 := [0x52, 0x56, 0x4D, 0x53, 0x54, 0x41, 0x54, 0x45]

/-- `CheckpointFileHeader`, its magic left out, and `CheckpointFileBody`, word by word. -/
def CheckpointState.words (s : CheckpointState) : List UInt32 :=
  [1, s.frameIndex] ++ ([s.halted, s.flags] ++ s.regs.toList ++ [s.pc, s.sp])

/-- The bytes `checkpoint_save` writes. -/
def checkpointSave (s : CheckpointState) : List UInt8 :=
  checkpointMagic ++ s.words.flatMap wordBytes

/-- Why `checkpoint_load` rejects a file. -/
inductive CheckpointError where
  /-- `read failed`: the file is shorter than header and body. -/
  | readFailed
  /-- `bad magic`. -/
  | badMagic
  /-- `unsupported .state`. -/
  | unknownVersion (version : UInt32)
  deriving DecidableEq

/-- `checkpoint_load`: whatever follows the 64 bytes is not read. -/
def checkpointLoad (file : List UInt8) : Except CheckpointError CheckpointState :=
  if file.length < 16 + 48 then .error .readFailed
  else if file.take 8 ≠ checkpointMagic then .error .badMagic
  else if wordAt file 8 ≠ 1 then .error (.unknownVersion (wordAt file 8))
  else .ok {
    frameIndex := wordAt file 12
    halted := wordAt file 16
    flags := wordAt file 20
    regs := Vector.ofFn fun i => wordAt file (24 + 4 * i.val)
    pc := wordAt file 56
    sp := wordAt file 60 }

section RoundTrip

variable (s : CheckpointState)

theorem words_length : s.words.length = 14 := by
  simp [CheckpointState.words]

theorem checkpointSave_length : (checkpointSave s).length = 64 := by
  unfold checkpointSave
  rw [List.length_append, flatMap_wordBytes_length, words_length]
  rfl

/-- The `i`-th word of a saved file. -/
theorem wordAt_checkpointSave (i : Nat) (h : i < s.words.length) :
    wordAt (checkpointSave s) (8 + 4 * i) = s.words[i] := by
  unfold checkpointSave
  rw [show 8 + 4 * i = checkpointMagic.length + 4 * i from rfl, wordAt_append]
  exact wordAt_flatMap _ i h

/-- **Loading what was saved gives it back**, in every field. -/
theorem checkpointLoad_checkpointSave : checkpointLoad (checkpointSave s) = .ok s := by
  have hlen := checkpointSave_length s
  have at_ := fun i (h : i < 14) => wordAt_checkpointSave s i ((words_length s).symm ▸ h)
  have hmagic : (checkpointSave s).take 8 = checkpointMagic := by
    unfold checkpointSave
    exact List.take_left' rfl
  have hversion : wordAt (checkpointSave s) 8 = 1 := at_ 0 (by omega)
  have hregs : ∀ i : Fin 8, wordAt (checkpointSave s) (24 + 4 * i.val) = s.regs[i] := by
    intro i
    have := at_ (4 + i.val) (by omega)
    rw [show 24 + 4 * i.val = 8 + 4 * (4 + i.val) by omega, this]
    simp [CheckpointState.words, Nat.add_comm 4]
  unfold checkpointLoad
  rw [if_neg (by omega), if_neg (not_not_intro hmagic), if_neg (not_not_intro hversion)]
  congr 1
  ext1
  · exact at_ 1 (by omega)
  · exact at_ 2 (by omega)
  · exact at_ 3 (by omega)
  · refine Vector.ext fun i hi => ?_
    simpa using hregs ⟨i, hi⟩
  · simpa [CheckpointState.words] using at_ 12 (by omega)
  · simpa [CheckpointState.words] using at_ 13 (by omega)

end RoundTrip

end RetroVM

import RetroVM.Engine.Words
import RetroVM.Trace.Drivers

/-!
# The `.trace` format (`include/retrovm/trace.hpp`, `trace.cpp`)

A `.trace` file is a 16-byte header (magic, version, a reserved word) and 16-byte frames. The writer
stores the header's words byte by byte and copies the frames as they lie in memory, padding
included; on a little-endian host both come to the same order of bytes. A `TraceReader` is a file
the constructor accepted: that its frames fill the file to the last byte is a field.

Results:
* `frames_getElem?`, `frames_of_flushToFile`: the drivers' list of frames is what `frame_at`
  returns, and what was appended.
* **`trace_codec_exact`**: what was appended is read back, and what is accepted.
-/

namespace RetroVM

/-! ## Byte helpers -/

/-- `write_u32_le`: the four bytes it stores. -/
def writeU32Le (v : UInt32) : List UInt8 :=
  (List.range 4).map fun i => ((v >>> UInt32.ofNat (i * 8)) &&& 0xFF).toUInt8

/-- `read_u32_le`: the loop runs from the highest byte down. -/
def readU32Le (p : List UInt8) (off : Nat) : UInt32 :=
  [3, 2, 1, 0].foldl (fun r i => (r <<< 8) ||| (p.getD (off + i) 0).toUInt32) 0

theorem writeU32Le_eq (v : UInt32) : writeU32Le v = wordBytes v := by
  have low : ∀ x : UInt32, (x &&& 0xFF).toUInt8 = x.toUInt8 := by
    intro x
    apply UInt8.toNat.inj
    have hmask : (0xFF : UInt32).toNat = 2 ^ 8 - 1 := rfl
    rw [UInt32.toNat_toUInt8, UInt32.toNat_toUInt8, UInt32.toNat_and, hmask,
      Nat.and_two_pow_sub_one_eq_mod, Nat.mod_mod]
  unfold writeU32Le wordBytes
  simp only [List.range, List.range.loop, List.map_cons, List.map_nil, low]
  rfl

theorem readU32Le_eq (p : List UInt8) (off : Nat) : readU32Le p off = wordAt p off := by
  unfold readU32Le wordAt word
  simp only [List.foldl_cons, List.foldl_nil, Nat.add_zero]
  apply UInt32.toBitVec_inj.mp
  ext i hi
  simp
  grind

/-! ## Frames -/

/-- A `TraceFrame` as it lies in memory: cycle, opcode, three bytes of padding, value. -/
def TraceFrame.bytes (f : TraceFrame) : List UInt8 :=
  dwordBytes f.cycle ++ ([f.opcode, 0, 0, 0] ++ wordBytes f.value)

/-- The `TraceFrame` at an offset of the map. -/
def frameOf (map : List UInt8) (off : Nat) : TraceFrame where
  cycle := dwordAt map off
  opcode := map.getD (off + 8) 0
  value := wordAt map (off + 12)

theorem frame_bytes_length (f : TraceFrame) : f.bytes.length = 16 := rfl

/-- A frame written is read back, whatever follows it. -/
theorem frameOf_bytes (f : TraceFrame) (rest : List UInt8) : frameOf (f.bytes ++ rest) 0 = f := by
  have hassoc : f.bytes ++ rest =
      dwordBytes f.cycle ++ ([f.opcode, 0, 0, 0] ++ (wordBytes f.value ++ rest)) := by
    unfold TraceFrame.bytes
    rw [List.append_assoc, List.append_assoc]
  have hvalue : wordAt (f.bytes ++ rest) (0 + 12) = f.value := by
    rw [hassoc, ← List.append_assoc]
    exact (wordAt_append (dwordBytes f.cycle ++ [f.opcode, 0, 0, 0]) _ 0).trans
      (wordAt_wordBytes _ _)
  unfold frameOf
  rw [hvalue, hassoc, dwordAt_dwordBytes]
  rfl

theorem frameOf_drop (map : List UInt8) (off k : Nat) :
    frameOf (map.drop off) k = frameOf map (off + k) := by
  unfold frameOf
  rw [dwordAt_drop, wordAt_drop, List.getD_eq_getElem?_getD, List.getElem?_drop,
    ← List.getD_eq_getElem?_getD, Nat.add_assoc, Nat.add_assoc]

/-! ## Reading -/

/-- `"RVMTRACE"`. -/
def traceMagic : List UInt8 := [0x52, 0x56, 0x4D, 0x54, 0x52, 0x41, 0x43, 0x45]

/-- What the constructor of `TraceReader` throws on a file it could map. -/
inductive TraceError where
  /-- `trace file is empty`. -/
  | empty
  /-- `trace file too small (< header)`. -/
  | tooSmall
  /-- `trace file has bad magic`. -/
  | badMagic
  /-- `unsupported trace version`. -/
  | unsupportedVersion (version : UInt32)
  /-- `trace file: frame count is not integer`. -/
  | raggedTail
  deriving DecidableEq

/-- `class TraceReader`, the file it mapped included: header and frames fill it exactly. -/
structure TraceReader where
  map        : List UInt8
  frameCount : Nat
  version    : UInt32
  magic      : List UInt8
  filled     : map.length = 16 + frameCount * 16

/-- The constructor `TraceReader`. -/
def TraceReader.ofFile (map : List UInt8) : Except TraceError TraceReader :=
  if map.length ≤ 0 then .error .empty
  else if hsmall : map.length < 16 then .error .tooSmall
  else if map.take 8 ≠ traceMagic then .error .badMagic
  else
    let version := readU32Le map 8
    if version ≠ 1 then .error (.unsupportedVersion version)
    else if hheader : map.length = 16 then
      .ok { map, frameCount := 0, version, magic := map.take 8, filled := hheader }
    else if hragged : (map.length - 16) % 16 ≠ 0 then .error .raggedTail
    else
      .ok {
        map
        frameCount := (map.length - 16) / 16
        version
        magic := map.take 8
        filled := by omega }

/-- `frame_at`; `none` is the null pointer. -/
def TraceReader.frameAt (r : TraceReader) (i : Nat) : Option TraceFrame :=
  if i ≥ r.frameCount then none else some (frameOf r.map (16 + i * 16))

/-- The frames as the drivers index them. -/
def TraceReader.frames (r : TraceReader) : Trace :=
  (List.range r.frameCount).map fun i => frameOf r.map (16 + i * 16)

/-- **The drivers' frames are `frame_at`.** -/
theorem frames_getElem? (r : TraceReader) (i : Nat) : r.frames[i]? = r.frameAt i := by
  unfold TraceReader.frames TraceReader.frameAt
  by_cases h : i < r.frameCount
  · simp [h]
  · simp [h]

/-- What an accepted file is. -/
theorem ofFile_eq_ok {file : List UInt8} {r : TraceReader} (h : TraceReader.ofFile file = .ok r) :
    r.map = file ∧ file.take 8 = traceMagic ∧ wordAt file 8 = 1 := by
  unfold TraceReader.ofFile at h
  simp only [readU32Le_eq] at h
  split at h
  · cases h
  split at h
  · cases h
  split at h
  · cases h
  next hmagic =>
    split at h
    · cases h
    next hversion =>
      have hfile : r.map = file := by
        split at h
        · cases h
          rfl
        · split at h
          · cases h
          · cases h
            rfl
      exact ⟨hfile, not_not.mp hmagic, not_not.mp hversion⟩

/-- **What the constructor accepts**, and the frame count it comes to. -/
theorem ofFile_accepts_iff {file : List UInt8} {m : Nat} :
    (∃ r, TraceReader.ofFile file = .ok r ∧ r.frameCount = m) ↔
      file.length = 16 + 16 * m ∧ file.take 8 = traceMagic ∧ wordAt file 8 = 1 := by
  constructor
  · rintro ⟨r, hr, rfl⟩
    obtain ⟨hmap, hmagic, hversion⟩ := ofFile_eq_ok hr
    have hfilled := r.filled
    rw [hmap] at hfilled
    exact ⟨by omega, hmagic, hversion⟩
  · rintro ⟨hlen, hmagic, hversion⟩
    unfold TraceReader.ofFile
    simp only [readU32Le_eq]
    rw [if_neg (by omega), dif_neg (by omega), if_neg (not_not_intro hmagic),
      if_neg (not_not_intro hversion)]
    by_cases hm : m = 0
    · subst hm
      rw [dif_pos hlen]
      exact ⟨_, rfl, rfl⟩
    · rw [dif_neg (by omega), dif_neg (by omega)]
      refine ⟨_, rfl, ?_⟩
      change (file.length - 16) / 16 = m
      omega

/-! ## Writing -/

/-- `class TraceWriter`. -/
structure TraceWriter where
  frames : Trace := []

/-- `append`; the frame is value-initialised first, so its padding is zero. -/
def TraceWriter.append (w : TraceWriter) (cycle : UInt64) (opcode : UInt8) (value : UInt32) :
    TraceWriter := { w with frames := w.frames ++ [⟨cycle, opcode, value⟩] }

/-- `flush_to_file`: the bytes at the path once it returns. -/
def TraceWriter.flushToFile (w : TraceWriter) : List UInt8 :=
  traceMagic ++ writeU32Le 1 ++ writeU32Le 0 ++ w.frames.flatMap TraceFrame.bytes

/-- A writer after a list of `(cycle, opcode, value)` triples was appended. -/
def TraceWriter.appendAll (w : TraceWriter) (triples : List (UInt64 × UInt8 × UInt32)) :
    TraceWriter := triples.foldl (fun w t => w.append t.1 t.2.1 t.2.2) w

theorem appendAll_frames (w : TraceWriter) (triples : List (UInt64 × UInt8 × UInt32)) :
    (w.appendAll triples).frames =
      w.frames ++ triples.map fun t => ⟨t.1, t.2.1, t.2.2⟩ := by
  induction triples generalizing w with
  | nil => exact (List.append_nil _).symm
  | cons t triples ih =>
    refine (ih (w.append t.1 t.2.1 t.2.2)).trans ?_
    change (w.frames ++ [_]) ++ _ = _
    rw [List.append_assoc]
    rfl

theorem flushToFile_length (w : TraceWriter) :
    w.flushToFile.length = 16 + 16 * w.frames.length := by
  unfold TraceWriter.flushToFile
  rw [List.length_append, Records.length_flatMap frame_bytes_length]
  rfl

/-- Past its header a flushed file holds the frames. -/
theorem flushToFile_drop (w : TraceWriter) (i : Nat) :
    w.flushToFile.drop (16 + i * 16) = (w.frames.drop i).flatMap TraceFrame.bytes := by
  have hheader : (traceMagic ++ writeU32Le 1 ++ writeU32Le 0).length = 16 := rfl
  unfold TraceWriter.flushToFile
  rw [← List.drop_drop, List.drop_left' hheader, Nat.mul_comm,
    Records.drop_flatMap frame_bytes_length]

/-- **What was flushed is accepted, and holds the frames.** -/
theorem ofFile_flushToFile (w : TraceWriter) :
    ∃ r, TraceReader.ofFile w.flushToFile = .ok r ∧ r.frameCount = w.frames.length ∧
      ∀ i, r.frameAt i = w.frames[i]? := by
  have hversion : wordAt w.flushToFile 8 = 1 := by
    unfold TraceWriter.flushToFile
    rw [writeU32Le_eq, List.append_assoc, List.append_assoc]
    exact (wordAt_append traceMagic _ 0).trans (wordAt_wordBytes _ _)
  obtain ⟨r, hr, hcount⟩ := ofFile_accepts_iff.mpr ⟨flushToFile_length w, rfl, hversion⟩
  have hmap := (ofFile_eq_ok hr).1
  refine ⟨r, hr, hcount, fun i => ?_⟩
  unfold TraceReader.frameAt
  rw [hcount, hmap]
  by_cases hi : i < w.frames.length
  · have hframe : frameOf w.flushToFile (16 + i * 16) = w.frames[i] := by
      rw [← Nat.add_zero (16 + i * 16), ← frameOf_drop, flushToFile_drop,
        List.drop_eq_getElem_cons hi, List.flatMap_cons]
      exact frameOf_bytes _ _
    rw [if_neg (by omega), hframe, List.getElem?_eq_getElem hi]
  · rw [if_pos (by omega), List.getElem?_eq_none (by omega)]

/-- The drivers read a flushed file as the frames that were appended. -/
theorem frames_of_flushToFile {w : TraceWriter} {r : TraceReader}
    (h : TraceReader.ofFile w.flushToFile = .ok r) : r.frames = w.frames := by
  obtain ⟨r', hr', -, hframe⟩ := ofFile_flushToFile w
  obtain rfl : r = r' := Except.ok.inj (h.symm.trans hr')
  apply List.ext_getElem?
  intro i
  rw [frames_getElem?, hframe]

/-- **The trace codec is exact.**

* Whatever triples are appended, the file flushed is accepted, its frame count is their number, and
  `frame_at` returns each of them in order and null past the last.
* A file is accepted, with frame count `m`, iff it is `16 + 16 * m` bytes long, starts with the
  magic and has version 1. -/
theorem trace_codec_exact :
    (∀ triples : List (UInt64 × UInt8 × UInt32),
      ∃ r, TraceReader.ofFile (TraceWriter.appendAll {} triples).flushToFile = .ok r ∧
        r.frameCount = triples.length ∧
        ∀ i, r.frameAt i = triples[i]?.map fun t => ⟨t.1, t.2.1, t.2.2⟩) ∧
    ∀ (file : List UInt8) (m : Nat),
      (∃ r, TraceReader.ofFile file = .ok r ∧ r.frameCount = m) ↔
        file.length = 16 + 16 * m ∧ file.take 8 = traceMagic ∧ wordAt file 8 = 1 := by
  constructor
  · intro triples
    obtain ⟨r, hr, hcount, hframe⟩ := ofFile_flushToFile (TraceWriter.appendAll {} triples)
    have hframes := appendAll_frames {} triples
    rw [List.nil_append] at hframes
    refine ⟨r, hr, ?_, fun i => ?_⟩
    · rw [hcount, hframes, List.length_map]
    · rw [hframe, hframes, List.getElem?_map]
  · intro file m
    exact ofFile_accepts_iff

end RetroVM

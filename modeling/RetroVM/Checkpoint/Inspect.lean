import RetroVM.Checkpoint.Load
import RetroVM.Checkpoint.Drivers
import RetroVM.Assembler.Disassemble
import RetroVM.Engine.Alike

/-!
# `inspect` and `inspect --diff` (`main.cpp`, `cmd_inspect` / `cmd_inspect_diff`)

`cmd_inspect` prints the thirteen words of a `.state` file; `cmd_inspect_diff` prints those that
differ between two files, both sides in the same text. What is printed is the decimal or
hexadecimal numeral of the word, but for the flags, of which three characters show the lowest three
bits. The names of the files, printed first, are left out.

Results:
* `get_patch`: what the printed rows make of the first file, word by word.
* **`inspect_diff_exact`**: what the rows say about any two files.
* `cycle_sane`: no cycle moves sp, and none leaves a flag other than the three, or `ZF` with `SF`.
* **`inspect_diff_of_saves`**: between two files `cmd_save` wrote the rows are all there is.
-/

namespace RetroVM

/-! ## What is printed -/

/-- The lines of `cmd_inspect_diff`, one a word of the file. -/
inductive Field where
  | frameIndex | haltReason | pc | sp
  /-- `flags (ZCS)`. -/
  | flags
  | reg (i : Fin 8)
  deriving DecidableEq

/-- The order they are printed in. -/
def Field.all : List Field :=
  [.frameIndex, .haltReason, .pc, .sp, .flags] ++ (List.finRange 8).map .reg

/-- `printf("0x%08x")`. -/
def printf08X (v : UInt32) : List Char :=
  '0' :: 'x' :: (List.replicate (8 - (printfX v).length) '0' ++ printfX v)

/-- The three characters of `flags (ZCS)`. -/
def zcs (flags : UInt32) : List Char :=
  [if flags &&& 0x1 ≠ 0 then 'Z' else '-', if flags &&& 0x2 ≠ 0 then 'C' else '-',
    if flags &&& 0x4 ≠ 0 then 'S' else '-']

/-- How a word is printed. -/
def Field.print : Field → UInt32 → List Char
  | .frameIndex, v => printfU v.toNat
  | .haltReason, v => printfU v.toNat
  | .pc, v => printf08X v
  | .sp, v => printf08X v
  | .flags, v => zcs v
  | .reg _, v => printfU v.toNat

/-- The word of a line. -/
def CheckpointState.get (s : CheckpointState) : Field → UInt32
  | .frameIndex => s.frameIndex
  | .haltReason => s.halted
  | .pc => s.pc
  | .sp => s.sp
  | .flags => s.flags
  | .reg i => s.regs.get i

/-- `CheckpointState cstate{}`. -/
def CheckpointState.zero : CheckpointState := ⟨0, 0, 0, Vector.replicate 8 0, 0, 0⟩

/-- `cmd_inspect`: every word, as printed; `none` is the exit code 1 of a file that was rejected. -/
def cmdInspect (file : Option (List UInt8)) : Option (List (Field × List Char)) :=
  match checkpointLoadInto file .zero with
  | (false, _) => none
  | (true, s) => some (Field.all.map fun fd => (fd, fd.print (s.get fd)))

/-- A printed difference. -/
structure DiffRow where
  field : Field
  a     : List Char
  b     : List Char
  deriving DecidableEq

/-- The line of a word, unless it is the same in both. -/
def diffRow (a b : CheckpointState) (fd : Field) : List DiffRow :=
  if a.get fd ≠ b.get fd then [⟨fd, fd.print (a.get fd), fd.print (b.get fd)⟩] else []

/-- `cmd_inspect_diff`; no row is `(no differing fields)`, and `none` the exit code 1. -/
def cmdInspectDiff (fileA fileB : Option (List UInt8)) : Option (List DiffRow) :=
  match checkpointLoadInto fileA .zero with
  | (false, _) => none
  | (true, a) =>
    match checkpointLoadInto fileB .zero with
    | (false, _) => none
    | (true, b) => some (Field.all.flatMap (diffRow a b))

/-! ## Reading a difference back -/

/-- What a reader takes a printed word for. -/
def Field.read : Field → List Char → UInt32
  | .frameIndex, t => UInt32.ofNat (Numerals.value 10 0 t)
  | .haltReason, t => UInt32.ofNat (Numerals.value 10 0 t)
  | .pc, t => UInt32.ofNat (Numerals.value 16 0 (t.drop 2))
  | .sp, t => UInt32.ofNat (Numerals.value 16 0 (t.drop 2))
  | .flags, t =>
    (if 'Z' ∈ t then flagZF else 0) ||| (if 'C' ∈ t then flagCF else 0) |||
      (if 'S' ∈ t then flagSF else 0)
  | .reg _, t => UInt32.ofNat (Numerals.value 10 0 t)

/-- A checkpoint with one word replaced. -/
def CheckpointState.set (s : CheckpointState) (fd : Field) (v : UInt32) : CheckpointState :=
  match fd with
  | .frameIndex => { s with frameIndex := v }
  | .haltReason => { s with halted := v }
  | .pc => { s with pc := v }
  | .sp => { s with sp := v }
  | .flags => { s with flags := v }
  | .reg i => { s with regs := assign s.regs i v }

/-- A checkpoint with the right-hand sides of printed differences written into it. -/
def CheckpointState.patch (s : CheckpointState) (rows : List DiffRow) : CheckpointState :=
  rows.foldl (fun s row => s.set row.field (row.field.read row.b)) s

/-! ## Words -/

section Words

variable {s t a b : CheckpointState} {fd : Field}

theorem mem_all (fd : Field) : fd ∈ Field.all := by
  cases fd with
  | reg i => exact List.mem_append_right _ (List.mem_map_of_mem (List.mem_finRange i))
  | _ => simp [Field.all]

@[simp] theorem get_set (v : UInt32) : (s.set fd v).get fd = v := by
  cases fd with
  | reg i => exact get_assign_self s.regs i v
  | _ => rfl

theorem get_set_ne {fd' : Field} (h : fd ≠ fd') (v : UInt32) :
    (s.set fd v).get fd' = s.get fd' := by
  cases fd with
  | reg i =>
    cases fd' with
    | reg j =>
      exact get_assign_ne s.regs v fun hij => h (congrArg Field.reg hij)
    | _ => rfl
  | _ => cases fd' <;> first | rfl | exact absurd rfl h

/-- A checkpoint is known by its words. -/
theorem state_ext (h : ∀ fd, s.get fd = t.get fd) : s = t := by
  apply CheckpointState.ext
  · exact h .frameIndex
  · exact h .haltReason
  · exact h .flags
  · exact Vector.ext fun i hi => h (.reg ⟨i, hi⟩)
  · exact h .pc
  · exact h .sp

/-- **What printed differences make of a checkpoint**: the words in question are as they read, the
others as they were. -/
theorem get_patch (fields : List Field) (s : CheckpointState) (fd : Field) :
    (s.patch (fields.flatMap (diffRow a b))).get fd =
      if fd ∈ fields ∧ a.get fd ≠ b.get fd then fd.read (fd.print (b.get fd)) else s.get fd := by
  induction fields generalizing s with
  | nil => simp [CheckpointState.patch]
  | cons f fields ih =>
    have hstep : s.patch ((f :: fields).flatMap (diffRow a b)) =
        (s.patch (diffRow a b f)).patch (fields.flatMap (diffRow a b)) := by
      unfold CheckpointState.patch
      rw [List.flatMap_cons, List.foldl_append]
    rw [hstep, ih]
    by_cases hf : a.get f = b.get f
    · have hnone : diffRow a b f = [] := if_neg (not_not_intro hf)
      rw [hnone]
      by_cases hfd : fd = f
      · rw [hfd]
        simp [hf, CheckpointState.patch]
      · simp [hfd, CheckpointState.patch]
    · have hone : s.patch (diffRow a b f) = s.set f (f.read (f.print (b.get f))) := by
        unfold diffRow
        rw [if_pos hf]
        rfl
      rw [hone]
      by_cases hfd : fd = f
      · rw [hfd]
        simp [hf]
      · rw [get_set_ne (Ne.symm hfd)]
        simp [hfd]

end Words

/-! ## Printing and reading -/

theorem value_zeros {b : Nat} (hb : 1 < b) (hb16 : b ≤ 16) (n : Nat) (t : List Char) :
    Numerals.value b 0 (List.replicate n '0' ++ t) = Numerals.value b 0 t := by
  induction n with
  | zero => rfl
  | succ n ih =>
    have hzero : Numerals.digit b '0' = some 0 :=
      Numerals.digit_digitChar (d := 0) (Nat.lt_trans Nat.zero_lt_one hb) hb16
    rw [List.replicate_succ, List.cons_append, Numerals.value, hzero]
    exact ih

theorem read_printfU (v : UInt32) : UInt32.ofNat (Numerals.value 10 0 (printfU v.toNat)) = v := by
  unfold printfU
  rw [Numerals.value_toDigits (by decide) (by decide), UInt32.ofNat_toNat]

theorem read_printf08X (v : UInt32) :
    UInt32.ofNat (Numerals.value 16 0 ((printf08X v).drop 2)) = v := by
  change UInt32.ofNat (Numerals.value 16 0 (List.replicate _ '0' ++ printfX v)) = v
  unfold printfX
  rw [value_zeros (by decide) (by decide), Numerals.value_toDigits (by decide) (by decide),
    UInt32.ofNat_toNat]

/-- What a mask of one bit leaves. -/
theorem one_bit (v : UInt32) {m : UInt32} {i : Nat} (hm : m.toBitVec = BitVec.twoPow 32 i) :
    (if v &&& m ≠ 0 then m else 0) = v &&& m := by
  have hbits : (v &&& m).toBitVec = if v.toBitVec.getLsbD i then m.toBitVec else 0 := by
    rw [UInt32.toBitVec_and, hm, BitVec.and_twoPow]
    rfl
  by_cases hset : v.toBitVec.getLsbD i
  · rw [if_pos hset] at hbits
    rw [UInt32.toBitVec_inj.mp hbits]
    split
    · rfl
    · next hzero => exact (not_not.mp hzero).symm
  · rw [if_neg hset] at hbits
    rw [show v &&& m = 0 from UInt32.toBitVec_inj.mp hbits]
    rfl

/-- Three characters show three bits. -/
theorem read_zcs (v : UInt32) : Field.flags.read (zcs v) = v &&& 7 := by
  have hread : ∀ z c s : Bool,
      Field.flags.read [if z then 'Z' else '-', if c then 'C' else '-', if s then 'S' else '-'] =
        (if z then flagZF else 0) ||| (if c then flagCF else 0) ||| (if s then flagSF else 0) := by
    decide
  have hparts : v &&& 7 = v &&& flagZF ||| v &&& flagCF ||| v &&& flagSF := by
    apply UInt32.toBitVec_inj.mp
    simp only [UInt32.toBitVec_or, UInt32.toBitVec_and, ← BitVec.and_or_distrib_left]
    rfl
  have hv := hread (v &&& 1 ≠ 0) (v &&& 2 ≠ 0) (v &&& 4 ≠ 0)
  simp only [decide_eq_true_eq] at hv
  rw [hparts, ← one_bit v (m := flagZF) (i := 0) (by decide),
    ← one_bit v (m := flagCF) (i := 1) (by decide), ← one_bit v (m := flagSF) (i := 2) (by decide)]
  exact hv

/-- What is printed of a word reads as the word, but for the flags beyond the three. -/
theorem read_print (fd : Field) (v : UInt32) :
    fd.read (fd.print v) = if fd = .flags then v &&& 7 else v := by
  cases fd with
  | flags => exact read_zcs v
  | pc => exact read_printf08X v
  | sp => exact read_printf08X v
  | _ => exact read_printfU v

/-- Words that read alike are the same, but for the flags beyond the three. -/
theorem eq_of_print {fd : Field} {v w : UInt32} (h : fd.print v = fd.print w) (hfd : fd ≠ .flags) :
    v = w := by
  have hread := congrArg fd.read h
  rwa [read_print, read_print, if_neg hfd, if_neg hfd] at hread

theorem and_seven_iff {v : UInt32} : v &&& 7 = v ↔ v < 8 := by
  have hmod : (v &&& 7).toNat = v.toNat % 2 ^ 3 := by
    rw [UInt32.toNat_and]
    exact Nat.and_two_pow_sub_one_eq_mod _ 3
  rw [← UInt32.toNat_inj, hmod, UInt32.lt_iff_toNat_lt]
  change v.toNat % 8 = v.toNat ↔ v.toNat < 8
  omega

/-! ## Any two files -/

/-- Where a word is in the file. -/
def Field.offset : Field → Nat
  | .frameIndex => 12
  | .haltReason => 16
  | .flags => 20
  | .reg i => 24 + 4 * i.val
  | .pc => 56
  | .sp => 60

section Files

variable {f g fileA fileB : List UInt8} {s a b : CheckpointState} {rows : List DiffRow}

/-- What was loaded is in the file. -/
theorem load_words (h : checkpointLoad f = .ok s) :
    64 ≤ f.length ∧ ∀ fd, wordAt f fd.offset = s.get fd := by
  unfold checkpointLoad at h
  split at h
  · cases h
  next hlen =>
    split at h
    · cases h
    split at h
    · cases h
    obtain rfl := Except.ok.inj h
    refine ⟨by omega, fun fd => ?_⟩
    cases fd with
    | reg i =>
      have hreg : (Vector.ofFn fun j : Fin 8 => wordAt f (24 + 4 * j.val)).get i =
          wordAt f (24 + 4 * i.val) := Vector.getElem_ofFn i.isLt
      exact hreg.symm
    | _ => rfl

/-- **A load forgets nothing of the 64 bytes.** -/
theorem take_of_load (hf : checkpointLoad f = .ok s) (hg : checkpointLoad g = .ok s) :
    f.take 64 = g.take 64 := by
  obtain ⟨hflen, hfw⟩ := load_words hf
  obtain ⟨hglen, hgw⟩ := load_words hg
  have hplace : ∀ i : Fin 64, 12 ≤ i.val →
      ∃ fd ∈ Field.all, ∃ k < 4, i.val = fd.offset + k := by
    decide
  have hbytes : ∀ i < 64, f.getD i 0 = g.getD i 0 := by
    intro i hi
    by_cases hhead : i < 12
    · have hsame := (checkpointLoad_header hf).trans (checkpointLoad_header hg).symm
      have hget := congrArg (·.getD i 0) hsame
      simpa [List.getD_eq_getElem?_getD, List.getElem?_take_of_lt hhead] using hget
    · obtain ⟨fd, -, k, hk, hik⟩ := hplace ⟨i, hi⟩ (Nat.le_of_not_lt hhead)
      have hword : wordAt f fd.offset = wordAt g fd.offset := (hfw fd).trans (hgw fd).symm
      rw [show i = fd.offset + k from hik]
      exact wordAt_inj hword hk
  refine List.ext_getElem (by simp; omega) fun i hi hi' => ?_
  rw [List.length_take] at hi
  have hget := hbytes i (by omega)
  rw [List.getD_eq_getElem _ _ (by omega), List.getD_eq_getElem _ _ (by omega)] at hget
  simpa using hget

/-- What was loaded is saved as it was. -/
theorem save_of_load (h : checkpointLoad f = .ok s) : checkpointSave s = f.take 64 := by
  have htake := take_of_load (checkpointLoad_checkpointSave s) h
  rwa [List.take_of_length_le (Nat.le_of_eq (checkpointSave_length s))] at htake

theorem load_inj (hf : checkpointLoad f = .ok a) (hg : checkpointLoad g = .ok b) :
    a = b ↔ f.take 64 = g.take 64 := by
  constructor
  · rintro rfl
    exact take_of_load hf hg
  · intro htake
    rw [← save_of_load hf, ← save_of_load hg] at htake
    have hload := congrArg checkpointLoad htake
    rw [checkpointLoad_checkpointSave, checkpointLoad_checkpointSave] at hload
    exact Except.ok.inj hload

/-- What `cmd_inspect` prints, once the file was loaded. -/
theorem cmdInspect_of_load (h : checkpointLoad f = .ok s) :
    cmdInspect (some f) = some (Field.all.map fun fd => (fd, fd.print (s.get fd))) := by
  unfold cmdInspect
  rw [checkpointLoadInto_eq, h]

/-- The loads behind a difference. -/
theorem cmdInspectDiff_eq_some_iff : cmdInspectDiff (some fileA) (some fileB) = some rows ↔
    ∃ a b, checkpointLoad fileA = .ok a ∧ checkpointLoad fileB = .ok b ∧
      Field.all.flatMap (diffRow a b) = rows := by
  unfold cmdInspectDiff
  rw [checkpointLoadInto_eq, checkpointLoadInto_eq]
  cases checkpointLoad fileA with
  | error e => simp
  | ok a =>
    cases checkpointLoad fileB with
    | error e => simp
    | ok b => simp

/-- The rows are the words that differ. -/
theorem mem_rows {row : DiffRow} : row ∈ Field.all.flatMap (diffRow a b) ↔
    a.get row.field ≠ b.get row.field ∧ row.a = row.field.print (a.get row.field) ∧
      row.b = row.field.print (b.get row.field) := by
  constructor
  · intro h
    obtain ⟨fd, -, hrow⟩ := List.mem_flatMap.mp h
    unfold diffRow at hrow
    split at hrow
    · next hne =>
      rw [List.mem_singleton.mp hrow]
      exact ⟨hne, rfl, rfl⟩
    · cases hrow
  · rintro ⟨hne, ha, hb⟩
    refine List.mem_flatMap.mpr ⟨row.field, mem_all _, ?_⟩
    unfold diffRow
    rw [if_pos hne, List.mem_singleton, ← ha, ← hb]

theorem row_of_ne {fd : Field} (h : a.get fd ≠ b.get fd) :
    (⟨fd, fd.print (a.get fd), fd.print (b.get fd)⟩ : DiffRow) ∈
      Field.all.flatMap (diffRow a b) :=
  mem_rows.mpr ⟨h, rfl, rfl⟩

theorem rows_eq_nil_iff : Field.all.flatMap (diffRow a b) = [] ↔ a = b := by
  constructor
  · intro h
    refine state_ext fun fd => ?_
    by_contra hne
    have hmem := row_of_ne hne
    rw [h] at hmem
    cases hmem
  · rintro rfl
    exact List.eq_nil_iff_forall_not_mem.mpr fun row hrow => (mem_rows.mp hrow).1 rfl

/-- Written into the first checkpoint, the rows give the second, unless its flags changed to a word
of more than three bits. -/
theorem patch_rows_iff :
    a.patch (Field.all.flatMap (diffRow a b)) = b ↔ a.flags = b.flags ∨ b.flags < 8 := by
  have hget := fun fd => get_patch (a := a) (b := b) Field.all a fd
  constructor
  · intro h
    by_cases hsame : a.flags = b.flags
    · exact .inl hsame
    · have hflags := hget .flags
      rw [h, if_pos ⟨mem_all _, hsame⟩, read_print, if_pos rfl] at hflags
      exact .inr (and_seven_iff.mp hflags.symm)
  · intro h
    refine state_ext fun fd => ?_
    rw [hget fd]
    by_cases hne : a.get fd = b.get fd
    · rw [if_neg fun hc => hc.2 hne, hne]
    · rw [if_pos ⟨mem_all fd, hne⟩, read_print]
      split
      · next hflags =>
        subst hflags
        exact and_seven_iff.mpr (h.resolve_left hne)
      · rfl

end Files

/-- **What `inspect --diff` says about any two files it accepts.**

* It prints `(no differing fields)` iff the 64 bytes of the format are the same in both.
* Only the `flags (ZCS)` row can have the same text on both sides, and `cmd_inspect` prints the
  same of both files iff every row has.
* The right-hand sides of the rows, written into the first file, give the second, unless its flags
  changed to a word that has more than the three bits shown. -/
theorem inspect_diff_exact (fileA fileB : List UInt8) (rows : List DiffRow)
    (h : cmdInspectDiff (some fileA) (some fileB) = some rows) :
    (rows = [] ↔ fileA.take 64 = fileB.take 64) ∧
      (∀ row ∈ rows, row.a = row.b → row.field = .flags) ∧
      (cmdInspect (some fileA) = cmdInspect (some fileB) ↔ ∀ row ∈ rows, row.a = row.b) ∧
      ∃ a b, checkpointLoad fileA = .ok a ∧ checkpointLoad fileB = .ok b ∧
        (checkpointSave (a.patch rows) = fileB.take 64 ↔ a.flags = b.flags ∨ b.flags < 8) := by
  obtain ⟨a, b, hA, hB, rfl⟩ := cmdInspectDiff_eq_some_iff.mp h
  refine ⟨rows_eq_nil_iff.trans (load_inj hA hB), fun row hrow hsides => ?_, ?_, a, b, hA, hB, ?_⟩
  · obtain ⟨hne, ha, hb⟩ := mem_rows.mp hrow
    rw [ha, hb] at hsides
    by_contra hfd
    exact hne (eq_of_print hsides hfd)
  · rw [cmdInspect_of_load hA, cmdInspect_of_load hB, Option.some_inj, List.map_inj_left]
    constructor
    · intro hsame row hrow
      obtain ⟨-, ha, hb⟩ := mem_rows.mp hrow
      rw [ha, hb]
      exact congrArg Prod.snd (hsame row.field (mem_all _))
    · intro hsides fd _
      by_cases hne : a.get fd = b.get fd
      · rw [hne]
      · exact congrArg (Prod.mk fd) (hsides _ (row_of_ne hne))
  · rw [← patch_rows_iff, ← save_of_load hB]
    constructor
    · intro hsave
      have hload := congrArg checkpointLoad hsave
      rw [checkpointLoad_checkpointSave, checkpointLoad_checkpointSave] at hload
      exact Except.ok.inj hload
    · intro hpatch
      rw [hpatch]

/-- Flags 0 and flags 8 read alike. -/
theorem inspect_diff_exact_hidden_flag :
    let fileOf := fun flags => checkpointSave ⟨0, 6, flags, Vector.replicate 8 0, 0, 0⟩
    cmdInspect (some (fileOf 0)) = cmdInspect (some (fileOf 8)) ∧
      (fileOf 0).take 64 ≠ (fileOf 8).take 64 := by
  intro fileOf
  obtain ⟨hnil, -, hinspect, -⟩ := inspect_diff_exact (fileOf 0) (fileOf 8)
    [⟨.flags, ['-', '-', '-'], ['-', '-', '-']⟩] (by decide +kernel)
  exact ⟨hinspect.mpr (by simp), fun hsame => absurd (hnil.mpr hsame) (by simp)⟩

/-! ## What no run changes -/

/-- What every `VMState` a run comes to is like: sp as the VM was built, no flag but the three. -/
structure Sane (s : VMState) : Prop where
  sp    : s.sp = VM.init.state.sp
  flags : s.flags < 8

theorem flagsOf_lt (r : UInt32) (carry : Prop) [Decidable carry] : flagsOf r carry < 8 := by
  unfold flagsOf
  by_cases hz : r = 0 <;> by_cases hc : carry <;> by_cases hs : r &&& 0x80000000 = 0 <;>
    simp only [hz, hc, hs, ne_eq, not_true, not_false_iff, if_true, if_false] <;> decide

section SaneRun

variable {ε : Type}

/-- The registers of an effect, if it comes with some, have flags below 8. -/
def Effect.FlagsShown : Effect → Prop
  | .next c => c.flags < 8
  | .write .. => True
  | .ask .. => True
  | .stop c _ => c.flags < 8

/-- The flags an instruction leaves are those it found or those of a result. -/
theorem effect_flags (i : Instr) (mem : Memory) {c : Cpu} (h : c.flags < 8) :
    (i.effect mem c).FlagsShown := by
  cases i with
  | store dst imm => exact trivial
  | ask q dst => exact trivial
  | alu op dst src => cases op <;> exact flagsOf_lt _ _
  | div dst src =>
    simp only [Instr.effect]
    split
    · exact h
    · exact flagsOf_lt _ _
  | jnz dst imm =>
    change (if c.regs.get dst ≠ 0 then { c with pc := imm } else c).flags < 8
    split <;> exact h
  | _ => exact h

theorem retire_flags (E : Env ε) (instr : UInt32) {m : Machine ε} (h : m.state.flags < 8) :
    (landed (m.retire E instr)).state.flags < 8 := by
  unfold Machine.retire
  cases decode instr with
  | none => exact h
  | some i =>
    change (landed ((m.dispatched instr).apply E (i.effect m.mem m.state.cpu))).state.flags < 8
    have hflags := effect_flags i m.mem (c := m.state.cpu) h
    cases he : i.effect m.mem m.state.cpu with
    | next c =>
      rw [he] at hflags
      exact hflags
    | write addr v => exact h
    | ask q dst =>
      change (landed (Machine.receive _ dst (consult E.hooks q _ _))).state.flags < 8
      rw [landed_receive, show (Machine.received _ dst _).state.flags = _ from
        congrArg (·.state.flags) (received_vm _ dst _)]
      exact h
    | stop c r =>
      rw [he] at hflags
      exact hflags

/-- **No cycle moves sp or sets a flag beyond the three.** -/
theorem cycle_sane (E : Env ε) {m : Machine ε} (h : Sane m.state) :
    Sane (landed (m.cycle E)).state := by
  refine ⟨(cycle_frame E m).2.1.trans h.sp, ?_⟩
  have hadvance : m.advance.state.flags < 8 := h.flags
  have hfired : (m.advance.tick.fired E).state.flags < 8 := by
    rw [(fired_frame E m.advance.tick).1]
    exact h.flags
  unfold Machine.cycle
  rcases snapTick_cases E m.advance with ⟨-, ht⟩ | ⟨-, -, ht⟩ | ⟨-, -, -, ht⟩ | ⟨-, -, -, ht⟩
  · rw [ht]
    exact retire_flags E m.fetched hadvance
  · rw [ht]
    exact retire_flags E m.fetched (m := m.advance.tick) hadvance
  · rw [ht]
    exact retire_flags E m.fetched hfired
  · rw [ht]
    exact hfired

end SaneRun

/-! ## What `cmd_save` writes -/

section Saves

variable {bytes : List UInt8} {reader : Trace} {atFrame fuel : Nat} {writable : Bool}

/-- A sink of `cmd_save` that asks for no halt writes nothing; one that does writes the state. -/
theorem saveSink_writes (atFrame : Nat) (targetCycle : UInt64) (writable : Bool) (s : Snapshot)
    (vm : VM) {e : Nat × SaveState} (h : e.2.file = none) :
    ((saveSink atFrame targetCycle writable s vm e).1 = none ∧
        (saveSink atFrame targetCycle writable s vm e).2.2.file = none) ∨
      ((saveSink atFrame targetCycle writable s vm e).1 = some .checkpoint ∧
        (saveSink atFrame targetCycle writable s vm e).2.2.file =
          some (checkpointSave (saveCheckpoint atFrame vm.state))) := by
  obtain ⟨cursor, saved, file⟩ := e
  unfold saveSink
  dsimp only
  split_ifs
  · exact .inl ⟨rfl, h⟩
  · exact .inl ⟨rfl, h⟩
  · exact .inl ⟨rfl, h⟩
  · exact .inr ⟨rfl, rfl⟩
  · exact .inl ⟨rfl, h⟩

/-- The file, if it was written, is the state of the VM. -/
def Wrote (atFrame : Nat) (m : Machine (Nat × SaveState)) : Prop :=
  m.env.2.file = none ∨ m.env.2.file = some (checkpointSave (saveCheckpoint atFrame m.state))

/-- A turn past the sink writes nothing. -/
theorem retire_wrote (targetCycle : UInt64) (instr : UInt32) {u : Machine (Nat × SaveState)}
    (h : u.env.2.file = none) :
    (∀ m', u.retire (saveEnv reader atFrame targetCycle writable) instr = .ok m' →
        m'.env.2.file = none) ∧
      ∀ x, u.retire (saveEnv reader atFrame targetCycle writable) instr = .error x →
        Wrote atFrame x.machine := by
  have hnone : (landed (u.retire (saveEnv reader atFrame targetCycle writable) instr)).env.2.file =
      none :=
    (congrArg SaveState.file (retire_beside (replayHooks reader) _ _ instr u)).trans h
  constructor
  · intro m' hm'
    rwa [hm'] at hnone
  · intro x hx
    rw [hx] at hnone
    exact .inl hnone

/-- **One turn of `cmd_save`** writes nothing, or the state it stops in. -/
theorem cycle_wrote {targetCycle : UInt64} {m : Machine (Nat × SaveState)}
    (h : m.env.2.file = none) :
    (∀ m', m.cycle (saveEnv reader atFrame targetCycle writable) = .ok m' →
        m'.env.2.file = none) ∧
      ∀ x, m.cycle (saveEnv reader atFrame targetCycle writable) = .error x →
        Wrote atFrame x.machine := by
  have hsink : (saveEnv reader atFrame targetCycle writable).snapSink =
      some (saveSink atFrame targetCycle writable) := rfl
  have hfired := fired_of_sink hsink m.advance.tick
  unfold Machine.cycle
  rcases snapTick_cases (saveEnv reader atFrame targetCycle writable) m.advance with
    ⟨-, ht⟩ | ⟨-, -, ht⟩ | ⟨-, -, hrun, ht⟩ | ⟨-, -, hstop, ht⟩
  · rw [ht]
    exact retire_wrote targetCycle m.fetched h
  · rw [ht]
    exact retire_wrote targetCycle m.fetched (u := m.advance.tick) h
  · rw [ht]
    refine retire_wrote targetCycle m.fetched ?_
    rcases saveSink_writes atFrame targetCycle writable m.advance.tick.vm.snapshot
      { m.advance.tick.vm with deltas := [] } h with ⟨-, hnone⟩ | ⟨hhalt, -⟩
    · rw [hfired]
      exact hnone
    · -- a firing that wrote does not go on
      rw [hfired] at hrun
      have hcheckpoint :=
        hrun.symm.trans (congrArg (Option.getD · m.advance.tick.state.halted) hhalt)
      cases hcheckpoint
  · rw [ht]
    refine ⟨fun m' hm' => (by cases hm'), fun x hx => ?_⟩
    obtain rfl := Except.error.inj hx
    rw [hfired]
    rcases saveSink_writes atFrame targetCycle writable m.advance.tick.vm.snapshot
      { m.advance.tick.vm with deltas := [] } h with ⟨-, hnone⟩ | ⟨-, hfile⟩
    · exact .inl hnone
    · exact .inr hfile

/-- **A file `cmd_save` wrote is the state of the VM it stopped.** -/
theorem saved_is_state {file : List UInt8} {vm : VM}
    (h : cmdSave bytes reader atFrame writable fuel = some (.saved (some file) vm)) :
    file = checkpointSave (saveCheckpoint atFrame vm.state) ∧ Sane vm.state := by
  obtain ⟨f, hf⟩ : ∃ f, reader[atFrame]? = some f := by
    cases hf : reader[atFrame]? with
    | none => simp [cmdSave, hf] at h
    | some f => exact ⟨f, rfl⟩
  obtain ⟨vm0, hb⟩ : ∃ vm0, VM.boot bytes = some vm0 := by
    cases hb : VM.boot bytes with
    | none => simp [cmdSave, hf, hb] at h
    | some vm0 => exact ⟨vm0, rfl⟩
  obtain ⟨x, hx, hv⟩ := (cmdSave_eq_some_iff hb hf).mp h
  have hstart : Sane (vm0.setSnapshotInterval 1).state := by
    rw [boot_eq_some hb]
    exact ⟨rfl, show (0 : UInt32) < 8 by decide⟩
  obtain ⟨hsane, hwrote⟩ := StepLoop.leaves_invariant
    (I := fun m : Machine (Nat × SaveState) => Sane m.state ∧ m.env.2.file = none)
    (Q := fun x : Exit (Nat × SaveState) => Sane x.machine.state ∧ Wrote atFrame x.machine)
    (fun m m' hm hc => by
      have hsane := cycle_sane (saveEnv reader atFrame f.cycle writable) hm.1
      rw [hc] at hsane
      exact ⟨hsane, (cycle_wrote hm.2).1 m' hc⟩)
    (fun m x hm hc => by
      have hsane := cycle_sane (saveEnv reader atFrame f.cycle writable) hm.1
      rw [hc] at hsane
      exact ⟨hsane, (cycle_wrote hm.2).2 x hc⟩)
    ⟨hstart, rfl⟩ ⟨fuel, hx⟩
  have hfile : x.machine.env.2.file = some file ∧ x.machine.vm = vm := by
    unfold saveVerdict at hv
    split at hv
    · cases hv
    · split at hv
      · cases hv
      split at hv
      · cases hv
      · exact SaveOutcome.saved.inj hv
  obtain ⟨hfile, rfl⟩ := hfile
  refine ⟨?_, hsane⟩
  rcases hwrote with hnone | hsome
  · rw [hnone] at hfile
    cases hfile
  · exact Option.some.inj (hfile.symm.trans hsome)

end Saves

/-! ## Two saved files -/

/-- What two VMs stopped by `cmd_save` on frames `N` and `N'` differ in. -/
def SavesDiffer (N : Nat) (vm : VM) (N' : Nat) (vm' : VM) : Field → Prop
  | .frameIndex => N % 2 ^ 32 ≠ N' % 2 ^ 32
  | .haltReason => False
  | .pc => vm.state.pc ≠ vm'.state.pc
  | .sp => False
  | .flags => vm.state.flags ≠ vm'.state.flags
  | .reg i => vm.state.regs.get i ≠ vm'.state.regs.get i

theorem savesDiffer_iff {N N' : Nat} {vm vm' : VM} (h : Sane vm.state) (h' : Sane vm'.state)
    (fd : Field) :
    (saveCheckpoint N vm.state).get fd ≠ (saveCheckpoint N' vm'.state).get fd ↔
      SavesDiffer N vm N' vm' fd := by
  cases fd with
  | frameIndex =>
    change ¬ UInt32.ofNat N = UInt32.ofNat N' ↔ ¬ N % 2 ^ 32 = N' % 2 ^ 32
    rw [← UInt32.toNat_inj, UInt32.toNat_ofNat', UInt32.toNat_ofNat']
  | haltReason => exact iff_of_false (fun hne => hne rfl) id
  | pc =>
    change ¬ vm.state.pc - 4 = vm'.state.pc - 4 ↔ ¬ vm.state.pc = vm'.state.pc
    rw [UInt32.sub_left_inj]
  | sp => exact iff_of_false (fun hne => hne (h.sp.trans h'.sp.symm)) id
  | flags => exact Iff.rfl
  | reg i => exact Iff.rfl

/-- **Between two files `cmd_save` wrote, the rows are all there is.** Whatever the programs, the
traces and the frames, `inspect --diff` accepts the two files. It prints a row for every register,
pc or flags the two stopped VMs differ in, one for the frame indices if they do, and no other: none
for the halt reason or sp. The two sides of a row never have the same text, no row is printed iff
the files are the same, and the rows written into the first file give the second. -/
theorem inspect_diff_of_saves (bytes bytes' : List UInt8) (reader reader' : Trace) (N N' : Nat)
    (writable writable' : Bool) (fuel fuel' : Nat) (a b : List UInt8) (vm vm' : VM)
    (hA : cmdSave bytes reader N writable fuel = some (.saved (some a) vm))
    (hB : cmdSave bytes' reader' N' writable' fuel' = some (.saved (some b) vm')) :
    ∃ rows, cmdInspectDiff (some a) (some b) = some rows ∧
      (∀ fd, (∃ row ∈ rows, row.field = fd) ↔ SavesDiffer N vm N' vm' fd) ∧
      (∀ row ∈ rows, row.a ≠ row.b) ∧
      (rows = [] ↔ a = b) ∧
      ∀ s, checkpointLoad a = .ok s → checkpointSave (s.patch rows) = b := by
  obtain ⟨rfl, hsane⟩ := saved_is_state hA
  obtain ⟨rfl, hsane'⟩ := saved_is_state hB
  have hloadA := checkpointLoad_checkpointSave (saveCheckpoint N vm.state)
  have hloadB := checkpointLoad_checkpointSave (saveCheckpoint N' vm'.state)
  refine ⟨_, cmdInspectDiff_eq_some_iff.mpr ⟨_, _, hloadA, hloadB, rfl⟩, fun fd => ?_,
    fun row hrow hsides => ?_, ?_, fun s hs => ?_⟩
  · rw [← savesDiffer_iff hsane hsane']
    constructor
    · rintro ⟨row, hrow, rfl⟩
      exact (mem_rows.mp hrow).1
    · intro hne
      exact ⟨_, row_of_ne hne, rfl⟩
  · obtain ⟨hne, ha, hb⟩ := mem_rows.mp hrow
    rw [ha, hb] at hsides
    by_cases hfd : row.field = .flags
    · have hread := congrArg row.field.read hsides
      rw [read_print, read_print, if_pos hfd, if_pos hfd] at hread
      rw [hfd] at hne hread
      exact hne ((and_seven_iff.mpr hsane.flags).symm.trans
        (hread.trans (and_seven_iff.mpr hsane'.flags)))
    · exact hne (eq_of_print hsides hfd)
  · rw [rows_eq_nil_iff]
    constructor
    · rintro hsame
      rw [hsame]
    · intro hsame
      have hload := congrArg checkpointLoad hsame
      rw [hloadA, hloadB] at hload
      exact Except.ok.inj hload
  · obtain rfl := Except.ok.inj (hloadA.symm.trans hs)
    rw [patch_rows_iff.mpr (.inr hsane'.flags)]

/-- What was written, if `cmd_save` stopped on its frame. -/
def SaveOutcome.written : SaveOutcome → Option (List UInt8)
  | .saved file _ => file
  | .outOfRange | .tooLarge | .aborted _ | .early _ _ | .cursorMismatch _ => none

theorem SaveOutcome.of_written {out : SaveOutcome} {file : List UInt8}
    (h : out.written = some file) : ∃ vm, out = .saved (some file) vm := by
  cases out with
  | saved written vm =>
    obtain rfl : written = some file := h
    exact ⟨vm, rfl⟩
  | _ => cases h

/-- `IN R1; IN R2; HALT`, saved on its two frames. -/
theorem inspect_diff_of_saves_two_frames :
    ∃ a b rows, cmdInspectDiff (some a) (some b) = some rows ∧
      (∃ row ∈ rows, row.field = .pc) ∧ a ≠ b ∧
      ∀ s, checkpointLoad a = .ok s → checkpointSave (s.patch rows) = b := by
  let bytes := imageOf [encode 0x09 1 0 0, encode 0x09 2 0 0, 0]
  let reader : Trace := [⟨1, 0x09, 5⟩, ⟨2, 0x09, 7⟩]
  have hA : (cmdSave bytes reader 0 true 3).bind SaveOutcome.written =
      some (checkpointSave ⟨0, 6, 0, Vector.replicate 8 0, 0, 0xFFFFC⟩) := by
    decide +kernel
  have hB : (cmdSave bytes reader 1 true 3).bind SaveOutcome.written =
      some (checkpointSave ⟨1, 6, 0, #v[0, 5, 0, 0, 0, 0, 0, 0], 4, 0xFFFFC⟩) := by
    decide +kernel
  obtain ⟨out, hsaveA, hfileA⟩ := Option.bind_eq_some_iff.mp hA
  obtain ⟨out', hsaveB, hfileB⟩ := Option.bind_eq_some_iff.mp hB
  obtain ⟨vm, rfl⟩ := SaveOutcome.of_written hfileA
  obtain ⟨vm', rfl⟩ := SaveOutcome.of_written hfileB
  obtain ⟨rows, hrows, -, -, hnil, hpatch⟩ := inspect_diff_of_saves bytes bytes reader reader 0 1
    true true 3 3 _ _ vm vm' hsaveA hsaveB
  have hdiff : cmdInspectDiff
      (some (checkpointSave ⟨0, 6, 0, Vector.replicate 8 0, 0, 0xFFFFC⟩))
      (some (checkpointSave ⟨1, 6, 0, #v[0, 5, 0, 0, 0, 0, 0, 0], 4, 0xFFFFC⟩)) =
      some [⟨.frameIndex, ['0'], ['1']⟩,
        ⟨.pc, "0x00000000".toList, "0x00000004".toList⟩, ⟨.reg 1, ['0'], ['5']⟩] := by
    decide +kernel
  obtain rfl := Option.some.inj (hdiff.symm.trans hrows)
  exact ⟨_, _, _, hdiff, ⟨_, List.mem_cons_of_mem _ List.mem_cons_self, rfl⟩,
    fun hsame => absurd (hnil.mpr hsame) (List.cons_ne_nil _ _), hpatch⟩

end RetroVM

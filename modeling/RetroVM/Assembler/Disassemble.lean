import RetroVM.Assembler.Canonical

/-!
# Disassembly (`main.cpp`, `disassemble_one`)

What `disassemble_one` prints of an instruction is a line of source in canonical form, except for
`LOAD` and `STORE`: their address is printed in brackets, which `parse_imm` does not read.

Results:
* `instrText_canonical`: the text of a statement that is neither.
* `bracketed_rejected`: what the assembler makes of an address in brackets.
* **`disassembly_reassembles_iff`**; `load_does_not_reassemble`.
-/

namespace RetroVM

open Numerals Words

/-- `%u`. -/
def printfU (n : Nat) : List Char := Nat.toDigits 10 n

/-- `%x`. -/
def printfX (n : UInt32) : List Char := Nat.toDigits 16 n.toNat

/-- The `switch` of `disassemble_one`: the text of an instruction word. -/
def instrText (instr : UInt32) : List Char :=
  let op := decodeOp instr
  let dst := printfU (decodeDst instr).val
  let src := printfU (decodeSrc instr).val
  let imm := printfX (decodeImm instr)
  match Opcode.ofCode op with
  | some .opHalt => "HALT".toList
  | some .opLoad => "LOAD  R".toList ++ dst ++ ", [0x".toList ++ imm ++ "]".toList
  | some .opStore => "STORE R".toList ++ dst ++ ", [0x".toList ++ imm ++ "]".toList
  | some .opAdd => "ADD   R".toList ++ dst ++ ", R".toList ++ src
  | some .opSub => "SUB   R".toList ++ dst ++ ", R".toList ++ src
  | some .opMul => "MUL   R".toList ++ dst ++ ", R".toList ++ src
  | some .opDiv => "DIV   R".toList ++ dst ++ ", R".toList ++ src
  | some .opJump => "JUMP  0x".toList ++ imm
  | some .opJnz => "JNZ   R".toList ++ dst ++ ", 0x".toList ++ imm
  | some .opIn => "IN    R".toList ++ dst
  | some .opRand => "RAND  R".toList ++ dst
  | some .opLi => "LI    R".toList ++ dst ++ ", 0x".toList ++ imm
  | none => "???  opcode 0x".toList ++ List.leftpad 2 '0' (printfX op) ++ " (unrecognized)".toList

/-- `disassemble_one`. -/
def disassembleOne (mem : Memory) (pc : UInt32) : List Char :=
  let addr := pc &&& memMask
  let b0 := (mem (arena addr)).toUInt32
  let b1 := (mem (arena (addr + 1))).toUInt32
  let b2 := (mem (arena (addr + 2))).toUInt32
  let b3 := (mem (arena (addr + 3))).toUInt32
  instrText (b0 ||| (b1 <<< 8) ||| (b2 <<< 16) ||| (b3 <<< 24))

/-- It prints the word a fetch would read. -/
theorem disassembleOne_eq (mem : Memory) (pc : UInt32) :
    disassembleOne mem pc = instrText (memLoadU32 mem pc) := rfl

/-! ## The text of a statement -/

theorem writesReg_printfU (r : Fin 8) : WritesReg r ('R' :: printfU r.val) := by
  refine ⟨'R', .inl rfl, ?_⟩
  unfold printfU
  rw [Nat.toDigits_of_lt_base (by omega)]

theorem canonicalImm_printfX (v : UInt32) : CanonicalImm v ('0' :: 'x' :: printfX v) :=
  .inr ⟨'x', printfX v, .inl rfl, isDigits_toDigits (by decide) (by decide) _,
    Nat.toDigits_ne_nil, value_toDigits (by decide) (by decide) _, rfl⟩

/-- `switch (op)` on the word of a statement. -/
theorem instrText_word (s : Statement) :
    Opcode.ofCode (decodeOp s.word) = some s.op ∧ decodeDst s.word = s.dst ∧
      decodeSrc s.word = s.src ∧ decodeImm s.word = s.imm := by
  obtain ⟨hop, hdst, hsrc, himm⟩ := decode_word s
  exact ⟨hop ▸ ofCode_code s.op, hdst, hsrc, himm⟩

theorem spells_mnemonic (op : Opcode) : Spells op op.mnemonic.toList := by
  cases op <;> decide

theorem blank_replicate (n : Nat) : Blank (List.replicate n ' ') := by
  intro c hc
  rw [List.eq_of_mem_replicate hc]
  rfl

/-- The texts printed for one operand are canonical. -/
theorem unary_canonical {s : Statement} {a : List Char} {o : Operand}
    (hone : s.op.operands = [o]) (ha : o.Canonical s a) (n : Nat) :
    CanonicalBody s (s.op.mnemonic.toList ++ List.replicate (n + 1) ' ' ++ a) := by
  have h := CanonicalBody.unary (spells_mnemonic s.op) hone (blank_replicate (n + 1)) (by simp) ha
    (.inl rfl)
  simpa only [List.append_assoc, List.append_nil] using h

/-- And those printed for two, a comma and a space between them. -/
theorem binary_canonical {s : Statement} {a b : List Char} {o o' : Operand}
    (htwo : s.op.operands = [o, o']) (ha : o.Canonical s a) (hb : o'.Canonical s b) (n : Nat) :
    CanonicalBody s
      (s.op.mnemonic.toList ++ List.replicate (n + 1) ' ' ++ a ++ [',', ' '] ++ b) := by
  have h := CanonicalBody.binary (spells_mnemonic s.op) htwo (blank_replicate (n + 1)) (by simp) ha
    (.inr rfl) (blank_replicate 1) (by simp) hb
  simpa using h

/-- **The text of a statement that is neither `LOAD` nor `STORE`** is canonical. -/
theorem instrText_canonical (s : Statement) (hload : s.op ≠ .opLoad) (hstore : s.op ≠ .opStore) :
    CanonicalBody s (instrText s.word) := by
  obtain ⟨hop, hdst, hsrc, himm⟩ := instrText_word s
  have hd : Operand.dst.Canonical s ('R' :: printfU s.dst.val) := writesReg_printfU s.dst
  have hs : Operand.src.Canonical s ('R' :: printfU s.src.val) := writesReg_printfU s.src
  have hi : Operand.imm.Canonical s ('0' :: 'x' :: printfX s.imm) := canonicalImm_printfX s.imm
  unfold instrText
  simp only [hop, hdst, hsrc, himm]
  cases h : s.op with
  | opHalt =>
    have htext := CanonicalBody.nullary (spells_mnemonic s.op) (by rw [h]; rfl)
    rwa [h] at htext
  | opLoad => exact absurd h hload
  | opStore => exact absurd h hstore
  | opAdd | opSub | opMul | opDiv =>
    have htext := binary_canonical (by rw [h]; rfl) hd hs 2
    rw [h] at htext
    simpa [Opcode.mnemonic] using htext
  | opJump =>
    have htext := unary_canonical (by rw [h]; rfl) hi 1
    rw [h] at htext
    simpa [Opcode.mnemonic] using htext
  | opJnz =>
    have htext := binary_canonical (by rw [h]; rfl) hd hi 2
    rw [h] at htext
    simpa [Opcode.mnemonic] using htext
  | opIn =>
    have htext := unary_canonical (by rw [h]; rfl) hd 3
    rw [h] at htext
    simpa [Opcode.mnemonic] using htext
  | opRand =>
    have htext := unary_canonical (by rw [h]; rfl) hd 1
    rw [h] at htext
    simpa [Opcode.mnemonic] using htext
  | opLi =>
    have htext := binary_canonical (by rw [h]; rfl) hd hi 3
    rw [h] at htext
    simpa [Opcode.mnemonic] using htext

/-! ## One line -/

/-- A text without a newline is one line. -/
theorem getlines_one {t : List Char} (hne : t ≠ []) (h : '\n' ∉ t) : getlines t = [t] := by
  induction t with
  | nil => exact absurd rfl hne
  | cons c t ih =>
    obtain ⟨hc, ht⟩ := not_or.mp (mt List.mem_cons.mpr h)
    unfold getlines
    rw [if_neg (Ne.symm hc)]
    cases t with
    | nil => rfl
    | cons d t => rw [ih (List.cons_ne_nil d t) ht]

/-- A file of one line is what becomes of the line. -/
theorem assembleFile_one {t : List Char} (hne : t ≠ []) (h : '\n' ∉ t) {w : UInt32} :
    (∃ file, assembleFile (some t) true = .ok ([w], file)) ↔
      assembleLine 1 t = .ok (some w) := by
  unfold assembleFile
  simp only [getlines_one hne h, assembleLines, List.nil_append]
  cases assembleLine (0 + 1) t with
  | error e => simp
  | ok o => cases o <;> simp

theorem newline_of_plain {t : List Char} (h : ∀ c ∈ t, Plain c) : '\n' ∉ t := by
  intro hc
  exact absurd (h _ hc).1 (by decide)

theorem printfU_plain (n : Nat) : ∀ c ∈ printfU n, Plain c :=
  plain_of_digits (isDigits_toDigits (by decide) (by decide) n)

theorem printfX_plain (v : UInt32) : ∀ c ∈ printfX v, Plain c :=
  plain_of_digits (isDigits_toDigits (by decide) (by decide) v.toNat)

/-- What is printed is one line. -/
theorem instrText_line (instr : UInt32) : instrText instr ≠ [] ∧ '\n' ∉ instrText instr := by
  have hu := fun n => newline_of_plain (printfU_plain n)
  have hx := fun v => newline_of_plain (printfX_plain v)
  unfold instrText
  simp only
  constructor
  · split <;> simp
  · split <;> simp [hu, hx, List.leftpad]

/-! ## Brackets -/

/-- `strtoul` reads nothing of a text that starts with a bracket. -/
theorem strtoul_bracket (t : List Char) : (strtoul ('[' :: t)).2 ≠ [] := by
  have hstr : cStr ('[' :: t) = '[' :: cStr t := rfl
  unfold strtoul
  rw [hstr]
  change (if (cStr t).length + 1 = (cStr t).length + 1 then (0, '[' :: cStr t) else _).2 ≠ []
  rw [if_pos rfl]
  exact List.cons_ne_nil _ _

/-- **An address in brackets is not read.** -/
theorem bracketed_rejected (line : Nat) (t : List Char) :
    parseImm line ('[' :: t) = .error (.badImmediate line ('[' :: t)) := by
  unfold parseImm
  rw [if_neg (List.cons_ne_nil _ _)]
  simp only [if_pos (strtoul_bracket t)]

theorem bracketed_plain (v : UInt32) :
    ∀ c ∈ '[' :: '0' :: 'x' :: printfX v ++ [']'], Plain c := by
  have hmark : ∀ c ∈ ['[', '0', 'x', ']'], Plain c := by
    unfold Plain
    decide
  intro c hc
  simp only [List.cons_append, List.mem_cons, List.mem_append, List.not_mem_nil, or_false] at hc
  rcases hc with rfl | rfl | rfl | hc | rfl
  · exact hmark _ (by decide)
  · exact hmark _ (by decide)
  · exact hmark _ (by decide)
  · exact printfX_plain v c hc
  · exact hmark _ (by decide)

/-- The text of a `LOAD` or `STORE`: its second operand is in brackets. -/
theorem instrText_bracketed (s : Statement) (h : s.op = .opLoad ∨ s.op = .opStore) :
    ∃ n, instrText s.word = s.op.mnemonic.toList ++ (List.replicate (n + 1) ' ' ++
      (('R' :: printfU s.dst.val ++ [',']) ++ ([' '] ++
        ('[' :: '0' :: 'x' :: printfX s.imm ++ [']'])))) := by
  obtain ⟨hop, hdst, -, himm⟩ := instrText_word s
  unfold instrText
  simp only [hop, hdst, himm]
  rcases h with h | h
  · rw [h]
    exact ⟨1, by simp [Opcode.mnemonic]⟩
  · rw [h]
    exact ⟨0, by simp [Opcode.mnemonic]⟩

/-- The text of a `LOAD` or `STORE` does not assemble. -/
theorem instrText_rejected (s : Statement) (h : s.op = .opLoad ∨ s.op = .opStore) (lineno : Nat) :
    ∃ e, assembleLine lineno (instrText s.word) = .error e := by
  obtain ⟨n, htext⟩ := instrText_bracketed s h
  have hop := spells_mnemonic s.op
  have hreg := writesReg_printfU s.dst
  have ha : Word isspace ('R' :: printfU s.dst.val ++ [',']) :=
    (word_of_plain (List.cons_ne_nil _ _) hreg.plain).append (by decide)
  have hplain := bracketed_plain s.imm
  have hb : Word isspace ('[' :: '0' :: 'x' :: printfX s.imm ++ [']']) :=
    word_of_plain (List.cons_ne_nil _ _) hplain
  have hline : trim (stripComment (instrText s.word)) = instrText s.word := by
    refine trim_self ?_ ⟨_, _, htext, hop.word⟩
      ⟨s.op.mnemonic.toList ++ (List.replicate (n + 1) ' ' ++
        (('R' :: printfU s.dst.val ++ [',']) ++ [' '])), _, ?_, hb⟩
    · rw [htext]
      simp only [List.forall_mem_append]
      exact ⟨no_comment_of_plain hop.plain, (blank_replicate _).no_comment,
        ⟨no_comment_of_plain hreg.plain, by decide⟩, by decide,
        fun c hc => no_comment_of_plain hplain c (List.mem_append_left _ hc), by decide⟩
    · rw [htext]
      simp only [List.append_assoc]
  rw [assembleLine_three (hline.trans htext) hop (blank_replicate _) (by simp) ha
    (blank_replicate 1) (by simp) hb, stripComma_append (by simp) hreg.plain,
    stripComma_plain hplain]
  have hsecond : parseImm lineno ('[' :: '0' :: 'x' :: printfX s.imm ++ [']']) = .error _ :=
    bracketed_rejected lineno _
  have hfirst := regOperand_writes hreg lineno
  rcases h with h | h
  · rw [h]
    simp only [assembleOp, hfirst, hsecond]
    exact ⟨_, rfl⟩
  · rw [h]
    simp only [assembleOp, hfirst, hsecond]
    exact ⟨_, rfl⟩

/-! ## Reassembling -/

/-- **When a disassembly re-assembles.** Take any word the assembler can emit, in any memory at any
pc: feeding what `disassemble_one` prints to the assembler yields that word again iff its opcode is
neither `LOAD` nor `STORE`. -/
theorem disassembly_reassembles_iff (s : Statement) (mem : Memory) (pc : UInt32)
    (hword : memLoadU32 mem pc = s.word) :
    (∃ file, assembleFile (some (disassembleOne mem pc)) true = .ok ([s.word], file)) ↔
      s.op ≠ .opLoad ∧ s.op ≠ .opStore := by
  obtain ⟨hne, hnewline⟩ := instrText_line s.word
  rw [disassembleOne_eq, hword, assembleFile_one hne hnewline]
  constructor
  · intro hok
    rw [← not_or]
    intro hmem
    obtain ⟨e, he⟩ := instrText_rejected s hmem 1
    cases he.symm.trans hok
  · rintro ⟨hload, hstore⟩
    have hbody := instrText_canonical s hload hstore
    obtain ⟨hcomment, hfirst, hlast⟩ := hbody.shape
    exact hbody.assembled (trim_self hcomment hfirst hlast) 1

/-- `JNZ R3, 0x24` across the end of the arena. -/
theorem disassembly_reassembles_jnz :
    ∃ file, assembleFile (some "JNZ   R3, 0x24".toList) true =
      .ok ([encode 0x08 3 0 0x24], file) := by
  let s : Statement := ⟨.opJnz, 3, 0, 0x24, by decide, by decide, by decide, by decide⟩
  let mem := memStoreU32 (fun _ => 0) 0xFFFFD (encode 0x08 3 0 0x24)
  have htext : disassembleOne mem 0xFFFFD = "JNZ   R3, 0x24".toList := by decide +kernel
  rw [← htext]
  exact (disassembly_reassembles_iff s mem 0xFFFFD (by decide)).mpr ⟨by decide, by decide⟩

/-- **A `LOAD` does not re-assemble**: `LOAD  R1, [0x10]`. -/
theorem load_does_not_reassemble :
    ¬ ∀ (s : Statement) (mem : Memory) (pc : UInt32), memLoadU32 mem pc = s.word →
      ∃ file, assembleFile (some (disassembleOne mem pc)) true = .ok ([s.word], file) := by
  intro hall
  let s : Statement := ⟨.opLoad, 1, 0, 0x10, by decide, by decide, by decide, by decide⟩
  let mem := memStoreU32 (fun _ => 0) 0 s.word
  have hword : memLoadU32 mem 0 = s.word := by decide
  obtain ⟨file, hfile⟩ := hall s mem 0 hword
  obtain ⟨hne, hnewline⟩ := instrText_line s.word
  rw [disassembleOne_eq, hword] at hfile
  obtain ⟨e, he⟩ := instrText_rejected s (.inl rfl) 1
  cases he.symm.trans ((assembleFile_one hne hnewline).mp ⟨file, hfile⟩)

end RetroVM

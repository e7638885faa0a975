import RetroVM.Assembler.Operands
import Mathlib.Data.List.ReduceOption

/-!
# From a source text to what the VM fetches

A text of which each line is blank, a comment or an instruction in canonical form assembles to one
word for each instruction, in order; loaded, the words are fetched in that order and decode to what
was written.

Results:
* `assembleLine_words`: a line is its first three words.
* `assembleLine_canonical`: a canonical line.
* **`assembled_text_is_fetched`**.
-/

namespace RetroVM

open Numerals Words

/-! ## Canonical form -/

/-- Some white space, or none. -/
abbrev Blank (s : List Char) : Prop := Gap isspace s

/-- An immediate in decimal, without leading zeros, or in hexadecimal. -/
def CanonicalImm (v : UInt32) (t : List Char) : Prop :=
  t = Nat.toDigits 10 v.toNat ∨
    ∃ x ds, (x = 'x' ∨ x = 'X') ∧ IsDigits 16 ds ∧ ds ≠ [] ∧ value 16 0 ds = v.toNat ∧
      t = '0' :: x :: ds

/-- An operand of `s` in canonical form. -/
def Operand.Canonical (s : Statement) : Operand → List Char → Prop
  | .dst => WritesReg s.dst
  | .src => WritesReg s.src
  | .imm => CanonicalImm s.imm

/-- A comma, or none. -/
def OptionalComma (t : List Char) : Prop := t = [] ∨ t = [',']

/-- The text of a statement: its mnemonic and its operands, the first with a comma or not. -/
inductive CanonicalBody (s : Statement) : List Char → Prop
  | nullary {op : List Char} : Spells s.op op → s.op.operands = [] → CanonicalBody s op
  | unary {op gap a comma : List Char} {o : Operand} :
      Spells s.op op → s.op.operands = [o] → Blank gap → gap ≠ [] → o.Canonical s a →
        OptionalComma comma → CanonicalBody s (op ++ (gap ++ (a ++ comma)))
  | binary {op gap a comma gap' b : List Char} {o o' : Operand} :
      Spells s.op op → s.op.operands = [o, o'] → Blank gap → gap ≠ [] → o.Canonical s a →
        OptionalComma comma → Blank gap' → gap' ≠ [] → o'.Canonical s b →
          CanonicalBody s (op ++ (gap ++ ((a ++ comma) ++ (gap' ++ b))))

/-- A comment, or none. -/
def OptionalComment (t : List Char) : Prop := ∀ c, t.head? = some c → c = ';'

/-- A line of a source, and the statement it holds, if any. -/
inductive CanonicalLine : List Char → Option Statement → Prop
  | blank {pre comment : List Char} :
      Blank pre → OptionalComment comment → CanonicalLine (pre ++ comment) none
  | instruction {s : Statement} {pre body post comment : List Char} :
      Blank pre → CanonicalBody s body → Blank post → OptionalComment comment →
        CanonicalLine (pre ++ body ++ post ++ comment) (some s)

theorem CanonicalImm.writes {v : UInt32} (hv : v.toNat < 2 ^ 20) {t : List Char}
    (h : CanonicalImm v t) : WritesImm v t := by
  have hnum : v = UInt32.ofNat v.toNat := (UInt32.ofNat_toNat).symm
  rcases h with rfl | ⟨x, ds, hx, hds, hne, hvalue, rfl⟩
  · refine ⟨v.toNat, ?_, hv, hnum⟩
    by_cases hzero : v.toNat = 0
    · rw [hzero]
      exact .octal fun c hc => nomatch hc
    · have hlit := Literal.decimal (isDigits_toDigits (by decide) (by decide) v.toNat)
        Nat.toDigits_ne_nil (head_toDigits (by decide) (by decide) (Nat.pos_of_ne_zero hzero))
      rwa [value_toDigits (by decide) (by decide)] at hlit
  · exact ⟨value 16 0 ds, .hex hx hds hne, hvalue ▸ hv, hvalue.symm ▸ hnum⟩

theorem Operand.Canonical.writes {s : Statement} {o : Operand} {t : List Char}
    (h : o.Canonical s t) : o.Writes s t := by
  cases o with
  | dst => exact h
  | src => exact h
  | imm => exact CanonicalImm.writes s.imm_lt h

/-! ## The words of a line -/

theorem word_of_plain {t : List Char} (hne : t ≠ []) (h : ∀ c ∈ t, Plain c) : Word isspace t :=
  ⟨hne, fun c hc => (h c hc).1⟩

theorem findOpcode_spells {op : Opcode} {t : List Char} (h : Spells op t) :
    findOpcode (t.map toupper) = some op := by
  rw [show t.map toupper = op.mnemonic.toList from h]
  cases op <;> decide

/-- Commas around an operand are stripped. -/
theorem stripComma_around (pre t post : List Char) (hpre : ∀ c ∈ pre, c = ',')
    (hpost : ∀ c ∈ post, c = ',') (ht : ∀ c ∈ t, Plain c) : stripComma (pre ++ t ++ post) = t := by
  have hcommas : ∀ s : List Char, (∀ c ∈ s, c = ',') →
      Gap (fun c => decide (c = ',') || isspace c) s := by
    intro s hs c hc
    rw [hs c hc]
    rfl
  have hkept : ∀ c ∈ t, (decide (c = ',') || isspace c) = false := by
    intro c hc
    obtain ⟨hspace, hcomma, -⟩ := ht c hc
    simp [hspace, hcomma]
  exact trim_append (hcommas pre hpre) (hcommas post hpost)
    (fun c hc => hkept c (List.mem_of_mem_head? hc))
    (fun c hc => hkept c (List.mem_of_getLast? hc))

theorem stripComma_append {t post : List Char} (hpost : ∀ c ∈ post, c = ',')
    (ht : ∀ c ∈ t, Plain c) : stripComma (t ++ post) = t :=
  stripComma_around [] t post (fun _ hc => absurd hc List.not_mem_nil) hpost ht

theorem stripComma_plain {t : List Char} (ht : ∀ c ∈ t, Plain c) : stripComma t = t := by
  have h := stripComma_around [] t [] (fun _ hc => absurd hc List.not_mem_nil)
    (fun _ hc => absurd hc List.not_mem_nil) ht
  rwa [List.nil_append, List.append_nil] at h

section Lines

variable {raw op gap a gap' b : List Char} {o : Opcode}

/-- **A line is its first three words.** -/
theorem assembleLine_words {line r r' r'' : List Char} (hline : trim (stripComment raw) = line)
    (hne : line ≠ []) (hop : extract line = (op, r)) (ha : extract r = (a, r'))
    (hb : extract r' = (b, r'')) (ho : Spells o op) (lineno : Nat) :
    assembleLine lineno raw = (assembleOp lineno o (stripComma a) (stripComma b)).map some := by
  unfold assembleLine
  rw [hline, if_neg hne]
  simp only [hop, ha, hb, findOpcode_spells ho]

theorem Spells.word {t : List Char} (h : Spells o t) : Word isspace t :=
  word_of_plain h.ne_nil h.plain

/-- Nothing is left to extract. -/
theorem extract_nil : extract [] = ([], []) := rfl

/-- A line of one word. -/
theorem assembleLine_one (hline : trim (stripComment raw) = op) (hop : Spells o op)
    (lineno : Nat) : assembleLine lineno raw = (assembleOp lineno o [] []).map some :=
  assembleLine_words hline hop.ne_nil (extract_last Gap.nil hop.word) extract_nil extract_nil hop
    lineno

/-- A line of two words. -/
theorem assembleLine_two (hline : trim (stripComment raw) = op ++ (gap ++ a)) (hop : Spells o op)
    (hgap : Blank gap) (hne : gap ≠ []) (ha : Word isspace a) (lineno : Nat) :
    assembleLine lineno raw = (assembleOp lineno o (stripComma a) []).map some :=
  assembleLine_words hline (List.append_ne_nil_of_left_ne_nil hop.ne_nil _)
    (extract_word hop.word (Behind.of_gap hgap hne)) (extract_last hgap ha) extract_nil hop lineno

/-- A line of three words. -/
theorem assembleLine_three (hline : trim (stripComment raw) = op ++ (gap ++ (a ++ (gap' ++ b))))
    (hop : Spells o op) (hgap : Blank gap) (hne : gap ≠ []) (ha : Word isspace a)
    (hgap' : Blank gap') (hne' : gap' ≠ []) (hb : Word isspace b) (lineno : Nat) :
    assembleLine lineno raw = (assembleOp lineno o (stripComma a) (stripComma b)).map some :=
  assembleLine_words hline (List.append_ne_nil_of_left_ne_nil hop.ne_nil _)
    (extract_word hop.word (Behind.of_gap hgap hne))
    (extract_append hgap ha (Behind.of_gap hgap' hne')) (extract_last hgap' hb) hop lineno

end Lines

/-! ## A canonical line -/

/-- What is cut off a line. -/
theorem stripComment_append {s comment : List Char} (hs : ∀ c ∈ s, c ≠ ';')
    (hcomment : OptionalComment comment) : stripComment (s ++ comment) = s := by
  refine takeWhile_run (fun c hc => by simpa using hs c hc) fun c hc => ?_
  rw [hcomment c hc]
  rfl

theorem Blank.no_comment {s : List Char} (h : Blank s) : ∀ c ∈ s, c ≠ ';' := by
  rintro c hc rfl
  exact absurd (h _ hc) (by decide)

theorem Operand.Writes.word {s : Statement} {o : Operand} {t : List Char} (h : o.Writes s t) :
    Word isspace t :=
  word_of_plain h.ne_nil h.plain

theorem OptionalComma.eq_comma {t : List Char} (h : OptionalComma t) : ∀ c ∈ t, c = ',' := by
  rcases h with rfl | rfl
  · exact fun c hc => nomatch hc
  · exact fun c hc => List.mem_singleton.mp hc

theorem no_comment_of_plain {t : List Char} (h : ∀ c ∈ t, Plain c) : ∀ c ∈ t, c ≠ ';' :=
  fun c hc => (h c hc).2.2.1

theorem OptionalComma.no_comment {t : List Char} (h : OptionalComma t) : ∀ c ∈ t, c ≠ ';' := by
  intro c hc
  rw [h.eq_comma c hc]
  decide

/-- An operand with its comma is one word, which is stripped to the operand. -/
theorem Operand.Writes.with_comma {s : Statement} {o : Operand} {a comma : List Char}
    (h : o.Writes s a) (hc : OptionalComma comma) :
    Word isspace (a ++ comma) ∧ stripComma (a ++ comma) = a := by
  constructor
  · refine h.word.append fun c hmem => ?_
    rw [hc.eq_comma c hmem]
    rfl
  · exact stripComma_append hc.eq_comma h.plain

/-- The body of a line has no comment in it, starts in its mnemonic, and ends in a word. -/
theorem CanonicalBody.shape {s : Statement} {t : List Char} (h : CanonicalBody s t) :
    (∀ c ∈ t, c ≠ ';') ∧ (∃ op tail, t = op ++ tail ∧ Word isspace op) ∧
      ∃ front w, t = front ++ w ∧ Word isspace w := by
  cases h with
  | nullary hop _ =>
    exact ⟨no_comment_of_plain hop.plain, ⟨t, [], (List.append_nil t).symm, hop.word⟩,
      ⟨[], t, rfl, hop.word⟩⟩
  | @unary op gap a comma o hop _ hgap _ ha hcomma =>
    refine ⟨?_, ⟨op, _, rfl, hop.word⟩,
      ⟨op ++ gap, a ++ comma, ?_, (ha.writes.with_comma hcomma).1⟩⟩
    · simp only [List.forall_mem_append]
      exact ⟨no_comment_of_plain hop.plain, hgap.no_comment, no_comment_of_plain ha.writes.plain,
        hcomma.no_comment⟩
    · rw [List.append_assoc]
  | @binary op gap a comma gap' b o o' hop _ hgap _ ha hcomma hgap' _ hb =>
    refine ⟨?_, ⟨op, _, rfl, hop.word⟩,
      ⟨op ++ (gap ++ ((a ++ comma) ++ gap')), b, ?_, hb.writes.word⟩⟩
    · simp only [List.forall_mem_append]
      exact ⟨no_comment_of_plain hop.plain, hgap.no_comment,
        ⟨no_comment_of_plain ha.writes.plain, hcomma.no_comment⟩, hgap'.no_comment,
        no_comment_of_plain hb.writes.plain⟩
    · simp only [List.append_assoc]

/-- A text that starts and ends in a word is what is left of it between spaces. -/
theorem trim_words {pre body post : List Char} (hpre : Blank pre) (hpost : Blank post)
    (hfirst : ∃ op tail, body = op ++ tail ∧ Word isspace op)
    (hlast : ∃ front w, body = front ++ w ∧ Word isspace w) :
    trim (pre ++ body ++ post) = body := by
  obtain ⟨op, tail, htail, hop⟩ := hfirst
  obtain ⟨front, w, hfront, hw⟩ := hlast
  refine trim_append hpre hpost (fun c hc => ?_) fun c hc => ?_
  · rw [htail, List.head?_append_of_ne_nil _ hop.ne_nil] at hc
    exact hop.solid c (List.mem_of_mem_head? hc)
  · rw [hfront, List.getLast?_append_of_ne_nil _ hw.ne_nil] at hc
    exact hw.solid c (List.mem_of_getLast? hc)

/-- Such a text, without a comment, is a line as it stands. -/
theorem trim_self {t : List Char} (hcomment : ∀ c ∈ t, c ≠ ';')
    (hfirst : ∃ op tail, t = op ++ tail ∧ Word isspace op)
    (hlast : ∃ front w, t = front ++ w ∧ Word isspace w) : trim (stripComment t) = t := by
  have hkept : stripComment t = t :=
    List.takeWhile_eq_self_iff.mpr fun c hc => by simpa using hcomment c hc
  have h : trim ([] ++ t ++ []) = t := trim_words Gap.nil Gap.nil hfirst hlast
  rw [hkept]
  rwa [List.nil_append, List.append_nil] at h

/-- **A canonical body assembles to its statement's word.** -/
theorem CanonicalBody.assembled {s : Statement} {raw body : List Char} (h : CanonicalBody s body)
    (hline : trim (stripComment raw) = body) (lineno : Nat) :
    assembleLine lineno raw = .ok (some s.word) := by
  cases h with
  | nullary hop hnone =>
    rw [assembleLine_one hline hop,
      assembleOp_written s (by rw [hnone]; exact fun o ho => nomatch ho)
        (by rw [hnone]; exact fun o ho => nomatch ho)]
    rfl
  | unary hop hone hgap hgne ha hcomma =>
    obtain ⟨haword, hastrip⟩ := ha.writes.with_comma hcomma
    rw [assembleLine_two hline hop hgap hgne haword, hastrip, assembleOp_written s
      (by rw [hone]; rintro o' ⟨⟩; exact ha.writes) (by rw [hone]; exact fun o ho => nomatch ho)]
    rfl
  | binary hop htwo hgap hgne ha hcomma hgap' hgne' hb =>
    obtain ⟨haword, hastrip⟩ := ha.writes.with_comma hcomma
    rw [assembleLine_three hline hop hgap hgne haword hgap' hgne' hb.writes.word, hastrip,
      stripComma_plain hb.writes.plain, assembleOp_written s
      (by rw [htwo]; rintro o'' ⟨⟩; exact ha.writes) (by rw [htwo]; rintro o'' ⟨⟩; exact hb.writes)]
    rfl

/-- **A canonical line assembles to what it holds.** -/
theorem assembleLine_canonical {raw : List Char} {w : Option Statement} (h : CanonicalLine raw w)
    (lineno : Nat) : assembleLine lineno raw = .ok (w.map Statement.word) := by
  cases h with
  | @blank pre comment hpre hcomment =>
    have hline : trim (stripComment (pre ++ comment)) = [] := by
      rw [stripComment_append hpre.no_comment hcomment]
      have h := trim_append (s := []) hpre Gap.nil (fun c hc => nomatch hc)
        (fun c hc => nomatch hc)
      rwa [List.append_nil, List.append_nil] at h
    unfold assembleLine
    rw [hline]
    rfl
  | instruction hpre hbody hpost hcomment =>
    refine hbody.assembled ?_ lineno
    obtain ⟨-, hfirst, hlast⟩ := hbody.shape
    rw [stripComment_append _ hcomment, trim_words hpre hpost hfirst hlast]
    simp only [List.forall_mem_append]
    exact ⟨⟨hpre.no_comment, hbody.shape.1⟩, hpost.no_comment⟩

/-! ## A canonical text -/

/-- Lines assemble one after the other. -/
theorem assembleLines_canonical {lines : List (List Char)} {ws : List (Option Statement)}
    (h : List.Forall₂ CanonicalLine lines ws) (lineno : Nat) (outInstrs : List UInt32) :
    assembleLines lineno outInstrs lines =
      .ok (outInstrs ++ ws.reduceOption.map Statement.word) := by
  induction h generalizing lineno outInstrs with
  | nil => exact congrArg Except.ok (List.append_nil _).symm
  | @cons raw w lines ws hline _ ih =>
    unfold assembleLines
    rw [assembleLine_canonical hline]
    cases w with
    | none => exact ih _ _
    | some s =>
      refine (ih _ _).trans (congrArg Except.ok ?_)
      rw [List.reduceOption_cons_of_some, List.map_cons, List.append_assoc]
      rfl

/-- **What is written is what is fetched.** Take any text whose lines are blank, comments or
canonical instructions, `2 ^ 18` instructions at most. It assembles to one word for each, in order;
the file loads; and the fetch at `4 * i` decodes to the opcode and the operands of the `i`-th
instruction, fields it does not use zero. -/
theorem assembled_text_is_fetched (text : List Char) (ws : List (Option Statement))
    (hlines : List.Forall₂ CanonicalLine (getlines text) ws)
    (hfit : ws.reduceOption.length ≤ 2 ^ 18) :
    ∃ file vm, assembleFile (some text) true =
        .ok (ws.reduceOption.map Statement.word, file) ∧ VM.boot file = some vm ∧
      ∀ (i : Nat) (hi : i < ws.reduceOption.length),
        let instr := memLoadU32 vm.mem (UInt32.ofNat (4 * i))
        let s := ws.reduceOption[i]
        decodeOp instr = s.op.code ∧ decodeDst instr = s.dst ∧ decodeSrc instr = s.src ∧
          decodeImm instr = s.imm := by
  let words := ws.reduceOption.map Statement.word
  have hlen : words.length = ws.reduceOption.length := List.length_map _
  have hrun : assembleFile (some text) true = .ok (words, imageOf words) := by
    unfold assembleFile
    simp only [assembleLines_canonical hlines]
    rfl
  have hsize : (imageOf words).length ≤ memSize := by
    have hmem : (memSize : Nat) = 4 * 2 ^ 18 := rfl
    rw [imageOf_length]
    omega
  refine ⟨imageOf words, _, hrun, boot_of_le hsize, fun i hi => ?_⟩
  have hword : memLoadU32 (fun a => (imageOf words).getD a 0) (UInt32.ofNat (4 * i)) =
      (ws.reduceOption[i]).word :=
    (fetch_imageOf (by omega) (by omega)).trans (List.getElem_map _)
  simp only [hword]
  exact decode_word _

/-- `li r0, 0x1F`, a comment, `  ADD R1 R2`. -/
theorem assembled_text_is_fetched_li_add :
    ∃ file vm words, assembleFile (some "li r0, 0x1F\n; c\n  ADD R1 R2".toList) true =
        .ok (words, file) ∧ VM.boot file = some vm ∧ words.length = 2 ∧
      decodeImm (memLoadU32 vm.mem (UInt32.ofNat (4 * 0))) = 31 ∧
      decodeSrc (memLoadU32 vm.mem (UInt32.ofNat (4 * 1))) = 2 := by
  let li : Statement := ⟨.opLi, 0, 0, 31, by decide, by decide, by decide, by decide⟩
  let add : Statement := ⟨.opAdd, 1, 2, 0, by decide, by decide, by decide, by decide⟩
  have hspace : Blank [' '] := by decide
  have hcomment : ∀ t, OptionalComment (';' :: t) := fun t c hc => (Option.some.inj hc).symm
  have hnone : OptionalComment [] := fun c hc => nomatch hc
  have hliBody : CanonicalBody li (['l', 'i'] ++ ([' '] ++ ((['r', '0'] ++ [',']) ++ ([' '] ++
      ['0', 'x', '1', 'F'])))) :=
    .binary (by decide) rfl hspace (by decide) ⟨'r', .inr rfl, rfl⟩ (.inr rfl) hspace (by decide)
      (.inr ⟨'x', ['1', 'F'], .inl rfl, by decide, by decide, by decide, rfl⟩)
  have haddBody : CanonicalBody add (['A', 'D', 'D'] ++ ([' '] ++ ((['R', '1'] ++ []) ++ ([' '] ++
      ['R', '2'])))) :=
    .binary (by decide) rfl hspace (by decide) ⟨'R', .inl rfl, rfl⟩ (.inl rfl) hspace (by decide)
      ⟨'R', .inl rfl, rfl⟩
  have hlines : List.Forall₂ CanonicalLine (getlines "li r0, 0x1F\n; c\n  ADD R1 R2".toList)
      [some li, none, some add] :=
    .cons (.instruction Gap.nil hliBody Gap.nil hnone) (.cons (.blank Gap.nil (hcomment _))
      (.cons (.instruction (hspace.append hspace) haddBody Gap.nil hnone) .nil))
  obtain ⟨file, vm, hrun, hvm, hfetch⟩ := assembled_text_is_fetched _ _ hlines (by decide)
  exact ⟨file, vm, _, hrun, hvm, rfl, (hfetch 0 (by decide)).2.2.2, (hfetch 1 (by decide)).2.2.1⟩

end RetroVM

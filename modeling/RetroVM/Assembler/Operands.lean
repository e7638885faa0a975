import RetroVM.Assembler.Assemble

/-!
# Statements and how their operands are written

A `Statement` is what one line of a source stands for: an opcode and its operands, with the fields
the opcode does not use zero. `Spells`, `WritesReg` and `Literal` say which texts stand for an
opcode, a register and a number, in terms of their own; the parsers of `assembler.cpp` read each
of them back.

Results:
* `exists_atoiText`, `strtoulText_of_read`: the texts `atoi` and `strtoul` read, taken apart.
* `parseReg_writes`, `strtoul_literal`, `parseImm_writes`: what is written is read.
* **`assembleOp_written`**: the operands of a statement, once written, assemble to its word.
* `decode_word`: the word of a statement decodes to it.
-/

namespace RetroVM

open Numerals

/-! ## Statements -/

/-- A place for an operand in an instruction word. -/
inductive Operand where
  | dst | src | imm
  deriving DecidableEq

/-- The operands an opcode takes, in the order they are written in. -/
def Opcode.operands : Opcode → List Operand
  | .opHalt => []
  | .opIn | .opRand => [.dst]
  | .opAdd | .opSub | .opMul | .opDiv => [.dst, .src]
  | .opLoad | .opStore | .opJnz | .opLi => [.dst, .imm]
  | .opJump => [.imm]

/-- An opcode with its operands. -/
structure Statement where
  op  : Opcode
  dst : Fin 8
  src : Fin 8
  imm : UInt32
  imm_lt : imm.toNat < 2 ^ 20
  no_dst : Operand.dst ∉ op.operands → dst = 0
  no_src : Operand.src ∉ op.operands → src = 0
  no_imm : Operand.imm ∉ op.operands → imm = 0

/-- The instruction word of a statement. -/
def Statement.word (s : Statement) : UInt32 :=
  encode s.op.code (UInt32.ofNat s.dst.val) (UInt32.ofNat s.src.val) s.imm

/-- **The word of a statement decodes to it.** -/
theorem decode_word (s : Statement) :
    decodeOp s.word = s.op.code ∧ decodeDst s.word = s.dst ∧ decodeSrc s.word = s.src ∧
      decodeImm s.word = s.imm := by
  have hop : s.op.code.toNat < 2 ^ 6 :=
    Nat.lt_trans (UInt32.lt_iff_toNat_lt.mp (code_lt_opCount s.op)) (by decide)
  have hreg : ∀ r : Fin 8, (UInt32.ofNat r.val).toNat = r.val := by decide
  have hdst : (UInt32.ofNat s.dst.val).toNat < 2 ^ 3 := by
    rw [hreg]
    exact s.dst.isLt
  have hsrc : (UInt32.ofNat s.src.val).toNat < 2 ^ 3 := by
    rw [hreg]
    exact s.src.isLt
  refine ⟨decodeOp_encode hop hdst hsrc s.imm_lt, Fin.ext ?_, Fin.ext ?_,
    decodeImm_encode hop hdst hsrc s.imm_lt⟩
  · exact (decodeDst_encode hop hdst hsrc s.imm_lt).trans (hreg s.dst)
  · exact (decodeSrc_encode hop hdst hsrc s.imm_lt).trans (hreg s.src)

/-! ## What is written -/

/-- A mnemonic, in any letter case. -/
def Spells (op : Opcode) (t : List Char) : Prop := t.map toupper = op.mnemonic.toList

instance (op : Opcode) (t : List Char) : Decidable (Spells op t) :=
  inferInstanceAs (Decidable (t.map toupper = op.mnemonic.toList))

/-- `R` or `r` and the digit of a register. -/
def WritesReg (r : Fin 8) (t : List Char) : Prop :=
  ∃ c, (c = 'R' ∨ c = 'r') ∧ t = [c, Nat.digitChar r.val]

/-- The numeric literals: decimal ones do not start with a zero, octal ones do, hexadecimal ones
with `0x`. -/
inductive Literal : List Char → Nat → Prop
  | decimal {ds : List Char} :
      IsDigits 10 ds → ds ≠ [] → ds.head? ≠ some '0' → Literal ds (value 10 0 ds)
  | octal {ds : List Char} : IsDigits 8 ds → Literal ('0' :: ds) (value 8 0 ds)
  | hex {x : Char} {ds : List Char} :
      x = 'x' ∨ x = 'X' → IsDigits 16 ds → ds ≠ [] → Literal ('0' :: x :: ds) (value 16 0 ds)

/-- A literal for an immediate. -/
def WritesImm (v : UInt32) (t : List Char) : Prop :=
  ∃ n, Literal t n ∧ n < 2 ^ 20 ∧ v = UInt32.ofNat n

/-- What stands for an operand of `s`. -/
def Operand.Writes (s : Statement) : Operand → List Char → Prop
  | .dst => WritesReg s.dst
  | .src => WritesReg s.src
  | .imm => WritesImm s.imm

/-! ## Letters and digits -/

/-- A character that is neither space nor one the assembler or the C library treats apart. -/
def Plain (c : Char) : Prop :=
  isspace c = false ∧ c ≠ ',' ∧ c ≠ ';' ∧ c ≠ '\x00' ∧ c ≠ '+' ∧ c ≠ '-'

/-- The characters that are not plain. -/
theorem plain_or (c : Char) :
    Plain c ∨ c ∈ [' ', '\t', '\n', '\x0B', '\x0C', '\r', ',', ';', '\x00', '+', '-'] := by
  unfold Plain isspace
  simp only [List.mem_cons, List.not_mem_nil, or_false]
  by_cases h : c = ' ' ∨ c = '\t' ∨ c = '\n' ∨ c = '\x0B' ∨ c = '\x0C' ∨ c = '\r' ∨ c = ',' ∨
      c = ';' ∨ c = '\x00' ∨ c = '+' ∨ c = '-'
  · exact .inr h
  · simp only [not_or] at h
    simp [h]

theorem plain_of_digit {b : Nat} {c : Char} (h : (digit b c).isSome) : Plain c := by
  rcases plain_or c with hc | hc
  · exact hc
  · -- none of the others has a digit's value
    have hnone : ∀ c ∈ [' ', '\t', '\n', '\x0B', '\x0C', '\r', ',', ';', '\x00', '+', '-'],
        digitVal c = none := by
      decide
    unfold digit at h
    rw [hnone c hc] at h
    cases h

theorem plain_of_digits {b : Nat} {s : List Char} (h : IsDigits b s) : ∀ c ∈ s, Plain c :=
  fun c hc => plain_of_digit (h c hc)

theorem Spells.plain {op : Opcode} {t : List Char} (h : Spells op t) : ∀ c ∈ t, Plain c := by
  intro c hc
  rcases plain_or c with hp | hbad
  · exact hp
  · -- the others are their own upper case, and no letter of a mnemonic
    have hkept : ∀ c ∈ [' ', '\t', '\n', '\x0B', '\x0C', '\r', ',', ';', '\x00', '+', '-'],
        toupper c ∉ op.mnemonic.toList := by
      cases op <;> decide
    have hmem : toupper c ∈ op.mnemonic.toList := h ▸ List.mem_map_of_mem hc
    exact absurd hmem (hkept c hbad)

theorem Spells.ne_nil {op : Opcode} {t : List Char} (h : Spells op t) : t ≠ [] := by
  rintro rfl
  have hnil : [] = op.mnemonic.toList := h
  cases op <;> exact absurd hnil (by decide)

theorem WritesReg.plain {r : Fin 8} {t : List Char} (h : WritesReg r t) : ∀ c ∈ t, Plain c := by
  obtain ⟨c, hc, rfl⟩ := h
  have hdigit : Plain (Nat.digitChar r.val) :=
    plain_of_digit (b := 10) (by rw [digit_digitChar (by omega) (by decide)]; rfl)
  have hletter : Plain c := by
    rcases hc with rfl | rfl
    · unfold Plain
      decide
    · unfold Plain
      decide
  intro d hd
  rcases List.mem_cons.mp hd with rfl | hd
  · exact hletter
  · rw [List.mem_singleton.mp hd]
    exact hdigit

theorem Literal.plain {t : List Char} {n : Nat} (h : Literal t n) : ∀ c ∈ t, Plain c := by
  have hzero : Plain '0' := plain_of_digit (b := 8) (by decide)
  cases h with
  | decimal hds => exact plain_of_digits hds
  | octal hds =>
    intro c hc
    rcases List.mem_cons.mp hc with rfl | hc
    · exact hzero
    · exact plain_of_digits hds c hc
  | hex hx hds =>
    intro c hc
    rcases List.mem_cons.mp hc with rfl | hc
    · exact hzero
    · rcases List.mem_cons.mp hc with rfl | hc
      · unfold Plain
        rcases hx with rfl | rfl <;> decide
      · exact plain_of_digits hds c hc

theorem Literal.ne_nil {t : List Char} {n : Nat} (h : Literal t n) : t ≠ [] := by
  cases h with
  | decimal _ hne => exact hne
  | octal => exact List.cons_ne_nil _ _
  | hex => exact List.cons_ne_nil _ _

/-- What `toupper` makes an `R`. -/
theorem eq_of_toupper {c : Char} (h : toupper c = 'R') : c = 'R' ∨ c = 'r' := by
  by_cases hlow : 'a' ≤ c ∧ c ≤ 'z'
  · have hbelow : ∀ n < 123, toupper (Char.ofNat n) = 'R' → Char.ofNat n = 'R' ∨
        Char.ofNat n = 'r' := by
      decide +kernel
    have hle : c.toNat ≤ 122 := hlow.2
    rw [← Char.ofNat_toNat c] at h ⊢
    exact hbelow c.toNat (by omega) h
  · unfold toupper at h
    rw [if_neg hlow] at h
    exact .inl h

theorem Operand.Writes.plain {s : Statement} {o : Operand} {t : List Char} (h : o.Writes s t) :
    ∀ c ∈ t, Plain c := by
  cases o with
  | dst => exact WritesReg.plain h
  | src => exact WritesReg.plain h
  | imm =>
    obtain ⟨n, hlit, -⟩ := h
    exact hlit.plain

theorem Operand.Writes.ne_nil {s : Statement} {o : Operand} {t : List Char} (h : o.Writes s t) :
    t ≠ [] := by
  cases o with
  | dst =>
    obtain ⟨c, -, rfl⟩ := h
    exact List.cons_ne_nil _ _
  | src =>
    obtain ⟨c, -, rfl⟩ := h
    exact List.cons_ne_nil _ _
  | imm =>
    obtain ⟨n, hlit, -⟩ := h
    exact hlit.ne_nil

/-! ## Signs and NULs -/

/-- A sign is taken off, if there is one. -/
theorem sign_append {sgn u : List Char} (hs : sgn ∈ [[], ['+'], ['-']])
    (hu : sgn = [] → ∀ c, u.head? = some c → c ≠ '+' ∧ c ≠ '-') :
    sign (sgn ++ u) = (decide (sgn = ['-']), u) := by
  simp only [List.mem_cons, List.not_mem_nil, or_false] at hs
  rcases hs with rfl | rfl | rfl
  · cases u with
    | nil => rfl
    | cons c u =>
      obtain ⟨hplus, hminus⟩ := hu rfl c rfl
      unfold sign
      split
      · next heq => exact absurd (List.cons.inj heq).1 hplus
      · next heq => exact absurd (List.cons.inj heq).1 hminus
      · rfl
  · rfl
  · rfl

/-- What `sign` takes off is a sign, if there is one. -/
theorem sign_spec (s : List Char) :
    ∃ sgn ∈ [[], ['+'], ['-']], ∃ u, s = sgn ++ u ∧ sign s = (decide (sgn = ['-']), u) ∧
      (sgn = [] → ∀ c, u.head? = some c → c ≠ '+' ∧ c ≠ '-') := by
  unfold sign
  split
  · exact ⟨['+'], by decide, _, rfl, rfl, fun h => nomatch h⟩
  · exact ⟨['-'], by decide, _, rfl, rfl, fun h => nomatch h⟩
  · next hplus hminus =>
    refine ⟨[], by decide, s, rfl, rfl, fun _ c hc => ?_⟩
    obtain ⟨v, rfl⟩ := List.head?_eq_some_iff.mp hc
    exact ⟨fun h => hplus v (by rw [h]), fun h => hminus v (by rw [h])⟩

/-- A sign is not plain. -/
theorem sign_eq_nil {sgn : List Char} (hs : sgn ∈ [[], ['+'], ['-']])
    (hplain : ∀ c ∈ sgn, Plain c) : sgn = [] := by
  simp only [List.mem_cons, List.not_mem_nil, or_false] at hs
  rcases hs with rfl | rfl | rfl
  · rfl
  · exact absurd rfl (hplain '+' List.mem_cons_self).2.2.2.2.1
  · exact absurd rfl (hplain '-' List.mem_cons_self).2.2.2.2.2

/-- A NUL ends a text behind signs and digits. -/
theorem cStr_append {s t : List Char} (hs : ∀ c ∈ s, c ≠ '\x00') : cStr (s ++ t) = s ++ cStr t :=
  List.takeWhile_append_of_pos fun c hc => decide_eq_true (hs c hc)

theorem sign_ne_nul {sgn : List Char} (hs : sgn ∈ [[], ['+'], ['-']]) : ∀ c ∈ sgn, c ≠ '\x00' := by
  revert sgn
  decide

theorem head_cStr {s : List Char} {c : Char} (h : (cStr s).head? = some c) : s.head? = some c := by
  cases s with
  | nil => exact h
  | cons d s =>
    unfold cStr at h
    by_cases hd : d = '\x00'
    · rw [List.takeWhile_cons_of_neg (by simp [hd])] at h
      cases h
    · rwa [List.takeWhile_cons_of_pos (by simp [hd])] at h

/-- Nothing is skipped in front of a text without white space. -/
theorem dropWhile_cStr {t : List Char} (hw : ∀ c ∈ t, isspace c = false) :
    (cStr t).dropWhile isspace = cStr t :=
  Words.dropWhile_run (s := []) (fun _ h => nomatch h) fun c hc =>
    hw c (List.mem_of_mem_head? (head_cStr hc))

/-- A text, cut at its NUL. -/
theorem exists_hidden (t : List Char) :
    ∃ rest, t = cStr t ++ rest ∧ ∀ c, rest.head? = some c → c = '\x00' := by
  let shown := fun c => decide (c ≠ '\x00')
  refine ⟨t.dropWhile shown, List.takeWhile_append_dropWhile.symm, fun c hc => ?_⟩
  have hno : shown c = false := Words.head?_dropWhile hc
  exact not_not.mp (of_decide_eq_false hno)

theorem cStr_of_hidden {rest : List Char} (h : ∀ c, rest.head? = some c → c = '\x00') :
    cStr rest = [] := by
  cases rest with
  | nil => rfl
  | cons c u => exact List.takeWhile_cons_of_neg (by simp [h c rfl])

/-! ## What `atoi` reads -/

/-- A text as `atoi` reads it: a sign, digits, and what it does not look at. -/
structure AtoiText where
  sgn    : List Char
  digits : List Char
  rest   : List Char
  sgn_mem  : sgn ∈ [[], ['+'], ['-']]
  isDigits : IsDigits 10 digits
  rest_head : ∀ c, rest.head? = some c → digit 10 c = none
  unsigned : sgn = [] → ∀ c, (digits ++ rest).head? = some c → c ≠ '+' ∧ c ≠ '-'

namespace AtoiText

/-- What is written. -/
def text (s : AtoiText) : List Char := s.sgn ++ (s.digits ++ s.rest)

/-- What `atoi` makes of it. -/
def number (s : AtoiText) : Int :=
  let n := value 10 0 s.digits
  let v : Int := if s.sgn = ['-'] then max (-n) (-2 ^ 63) else min n (2 ^ 63 - 1)
  v.bmod (2 ^ 32)

end AtoiText

/-- **`atoi` reads every text so.** -/
theorem exists_atoiText (u : List Char) : ∃ s : AtoiText, s.text = u := by
  obtain ⟨sgn, hsgn, v, hu, -, hhead⟩ := sign_spec u
  let isDigit := fun c => (digit 10 c).isSome
  have hv : v.takeWhile isDigit ++ v.dropWhile isDigit = v := List.takeWhile_append_dropWhile
  refine ⟨⟨sgn, v.takeWhile isDigit, v.dropWhile isDigit, hsgn, ?_, ?_, ?_⟩, ?_⟩
  · exact fun c hc => List.mem_takeWhile_imp (p := isDigit) hc
  · intro c hc
    have hno : isDigit c = false := Words.head?_dropWhile hc
    exact Option.not_isSome_iff_eq_none.mp (Bool.eq_false_iff.mp hno)
  · rw [hv]
    exact hhead
  · exact (congrArg (sgn ++ ·) hv).trans hu.symm

theorem atoi_text (s : AtoiText) (hw : ∀ c ∈ s.text, isspace c = false) :
    atoi s.text = s.number := by
  have hdigits : ∀ c ∈ s.digits, c ≠ '\x00' := fun c hc =>
    (plain_of_digits s.isDigits c hc).2.2.2.1
  have hcstr : cStr s.text = s.sgn ++ (s.digits ++ cStr s.rest) := by
    unfold AtoiText.text
    rw [cStr_append (sign_ne_nul s.sgn_mem), cStr_append hdigits]
  have hsign : sign (s.sgn ++ (s.digits ++ cStr s.rest)) =
      (decide (s.sgn = ['-']), s.digits ++ cStr s.rest) := by
    refine sign_append s.sgn_mem fun hs c hc => s.unsigned hs c ?_
    cases hd : s.digits with
    | nil =>
      rw [hd] at hc
      exact head_cStr hc
    | cons d u =>
      rw [hd] at hc
      exact hc
  unfold atoi AtoiText.number
  rw [dropWhile_cStr hw, hcstr, hsign]
  simp only [scan_append s.isDigits fun c hc => s.rest_head c (head_cStr hc), decide_eq_true_eq]

/-! ## What `strtoul` reads -/

/-- The base of a literal, and its digits. -/
theorem prefixBase_literal {t : List Char} {n : Nat} (h : Literal t n) :
    ∃ b ds, prefixBase t = (b, ds) ∧ IsDigits b ds ∧ ds ≠ [] ∧ value b 0 ds = n := by
  cases h with
  | decimal hds hne hhead =>
    refine ⟨10, t, ?_, hds, hne, rfl⟩
    unfold prefixBase
    split
    · exact absurd rfl hhead
    · exact absurd rfl hhead
    · rfl
  | @octal ds hds =>
    have hzero : IsDigits 8 ('0' :: ds) := by
      intro c hc
      rcases List.mem_cons.mp hc with rfl | hc
      · decide
      · exact hds c hc
    refine ⟨8, '0' :: ds, ?_, hzero, List.cons_ne_nil _ _, rfl⟩
    match ds, hds with
    | [], _ => rfl
    | [x], _ => rfl
    | x :: c :: u, hds =>
      refine if_neg ?_
      rintro ⟨rfl | rfl, -⟩
      · exact absurd (hds 'x' List.mem_cons_self) (by decide)
      · exact absurd (hds 'X' List.mem_cons_self) (by decide)
  | @hex x ds hx hds hne =>
    obtain ⟨c, u, rfl⟩ := List.exists_cons_of_ne_nil hne
    exact ⟨16, c :: u, if_pos ⟨hx, hds c List.mem_cons_self⟩, hds, hne, rfl⟩

/-- What digits behind a prefix are a literal. -/
theorem literal_of_prefixBase {u ds : List Char} {b : Nat} (h : prefixBase u = (b, ds))
    (hds : IsDigits b ds) (hne : ds ≠ []) : ∃ n, Literal u n := by
  unfold prefixBase at h
  split at h
  · next x c v =>
    by_cases hx : (x = 'x' ∨ x = 'X') ∧ (digit 16 c).isSome
    · rw [if_pos hx] at h
      obtain ⟨rfl, rfl⟩ := Prod.mk.inj h
      exact ⟨_, .hex hx.1 hds hne⟩
    · rw [if_neg hx] at h
      obtain ⟨rfl, rfl⟩ := Prod.mk.inj h
      exact ⟨_, .octal fun c hc => hds c (List.mem_cons_of_mem _ hc)⟩
  · obtain ⟨rfl, rfl⟩ := Prod.mk.inj h
    exact ⟨_, .octal fun c hc => hds c (List.mem_cons_of_mem _ hc)⟩
  · next hthree hone =>
    obtain ⟨rfl, rfl⟩ := Prod.mk.inj h
    refine ⟨_, .decimal hds hne fun hzero => ?_⟩
    obtain ⟨v, rfl⟩ := List.head?_eq_some_iff.mp hzero
    exact hone v rfl

/-- A text as `strtoul` reads it to its end: a sign, a literal, and a NUL with what it hides. -/
structure StrtoulText where
  sgn    : List Char
  lit    : List Char
  number : Nat
  rest   : List Char
  sgn_mem : sgn ∈ [[], ['+'], ['-']]
  literal : Literal lit number
  hidden  : ∀ c, rest.head? = some c → c = '\x00'

namespace StrtoulText

/-- What is written. -/
def text (s : StrtoulText) : List Char := s.sgn ++ (s.lit ++ s.rest)

/-- What `strtoul` makes of it. -/
def read (s : StrtoulText) : UInt64 :=
  if s.number ≥ 2 ^ 64 then 0xFFFFFFFFFFFFFFFF
  else if s.sgn = ['-'] then -UInt64.ofNat s.number
  else UInt64.ofNat s.number

end StrtoulText

theorem strtoul_text (s : StrtoulText) (hw : ∀ c ∈ s.text, isspace c = false) :
    strtoul s.text = (s.read, []) := by
  obtain ⟨b, ds, hbase, hds, hne, hvalue⟩ := prefixBase_literal s.literal
  have hplain := s.literal.plain
  have hcstr : cStr s.text = s.sgn ++ s.lit := by
    unfold StrtoulText.text
    rw [cStr_append (sign_ne_nul s.sgn_mem), cStr_append fun c hc => (hplain c hc).2.2.2.1,
      cStr_of_hidden s.hidden, List.append_nil]
  have hsign : sign (s.sgn ++ s.lit) = (decide (s.sgn = ['-']), s.lit) :=
    sign_append s.sgn_mem fun _ c hc => (hplain c (List.mem_of_mem_head? hc)).2.2.2.2
  have hlen : ¬ ([] : List Char).length = ds.length := by
    intro hzero
    exact hne (List.length_eq_zero_iff.mp hzero.symm)
  unfold strtoul StrtoulText.read
  rw [dropWhile_cStr hw, hcstr, hsign]
  simp only [hbase, scan_digits hds, hvalue, if_neg hlen, decide_eq_true_eq]
  split
  · rfl
  · split <;> rfl

/-- **What `strtoul` reads to its end** is a signed literal, or starts with a NUL. -/
theorem strtoulText_of_read {t : List Char} (hw : ∀ c ∈ t, isspace c = false)
    (h : (strtoul t).2 = []) (hne : cStr t ≠ []) : ∃ s : StrtoulText, s.text = t := by
  obtain ⟨rest, ht, hhidden⟩ := exists_hidden t
  obtain ⟨sgn, hsgn, u, hu, hsign, -⟩ := sign_spec (cStr t)
  obtain ⟨ds, hs, hds, -⟩ := scan_spec (b := (prefixBase u).1) 0 (prefixBase u).2
  unfold strtoul at h
  simp only [dropWhile_cStr hw, hsign] at h
  generalize hr : scan (prefixBase u).1 0 (prefixBase u).2 = r at h hs
  by_cases hlen : r.2.length = (prefixBase u).2.length
  · rw [if_pos hlen] at h
    exact absurd h hne
  · rw [if_neg hlen] at h
    have hrest : r.2 = [] := by
      split at h
      · exact h
      · split at h <;> exact h
    rw [hrest, List.append_nil] at hs
    have hsome : (prefixBase u).2 ≠ [] := by
      intro hnil
      rw [hrest, hnil] at hlen
      exact hlen rfl
    have hdigits : IsDigits (prefixBase u).1 (prefixBase u).2 := hs.symm ▸ hds
    obtain ⟨n, hlit⟩ := literal_of_prefixBase (u := u) rfl hdigits hsome
    refine ⟨⟨sgn, u, n, rest, hsgn, hlit, hhidden⟩, ?_⟩
    unfold StrtoulText.text
    rw [← List.append_assoc, ← hu, ← ht]

/-- **A literal is read with its value, to its end.** -/
theorem strtoul_literal {t : List Char} {n : Nat} (h : Literal t n) (hn : n < 2 ^ 64) :
    strtoul t = (UInt64.ofNat n, []) := by
  let s : StrtoulText := ⟨[], t, n, [], by decide, h, fun _ hc => nomatch hc⟩
  have htext : s.text = t := List.append_nil t
  have hread : s.read = UInt64.ofNat n := if_neg (Nat.not_le.mpr hn)
  rw [← hread, ← strtoul_text s fun c hc => (h.plain c (htext ▸ hc)).1, htext]

/-! ## What the parsers read -/

theorem parseReg_writes {r : Fin 8} {t : List Char} (h : WritesReg r t) : parseReg t = some r := by
  obtain ⟨c, rfl | rfl, rfl⟩ := h
  · revert r
    decide
  · revert r
    decide

theorem parseImm_writes {v : UInt32} {t : List Char} (h : WritesImm v t) (line : Nat) :
    parseImm line t = .ok v := by
  obtain ⟨n, hlit, hn, rfl⟩ := h
  have h64 : (UInt64.ofNat n).toNat = n := UInt64.toNat_ofNat_of_lt' (Nat.lt_trans hn (by decide))
  have h32 : (UInt32.ofNat n).toNat = n := UInt32.toNat_ofNat_of_lt' (Nat.lt_trans hn (by decide))
  have hle : ¬ UInt64.ofNat n > 0xFFFFF := by
    rw [gt_iff_lt, UInt64.lt_iff_toNat_lt, h64]
    change ¬ 0xFFFFF < n
    omega
  unfold parseImm
  rw [if_neg hlit.ne_nil]
  simp only [strtoul_literal hlit (by omega), ne_eq, not_true, if_false, if_neg hle]
  refine congrArg Except.ok (UInt32.toNat.inj ?_)
  rw [UInt64.toNat_toUInt32, h64, h32]
  omega

theorem regOperand_writes {r : Fin 8} {t : List Char} (h : WritesReg r t) (line : Nat) :
    regOperand line t = .ok (UInt32.ofNat r.val) := by
  unfold regOperand
  rw [parseReg_writes h]

/-- What the `switch` makes of operands it reads as `dst`, `src` and `imm`. -/
theorem assembleOp_fields {op : Opcode} {dst src : Fin 8} {imm : UInt32} {a b : List Char}
    {line : Nat}
    (hdst : op.operands[0]? = some .dst → regOperand line a = .ok (UInt32.ofNat dst.val))
    (haddr : op.operands[0]? = some .imm → parseImm line a = .ok imm)
    (hsrc : op.operands[1]? = some .src → regOperand line b = .ok (UInt32.ofNat src.val))
    (himm : op.operands[1]? = some .imm → parseImm line b = .ok imm)
    (no_dst : Operand.dst ∉ op.operands → dst = 0) (no_src : Operand.src ∉ op.operands → src = 0)
    (no_imm : Operand.imm ∉ op.operands → imm = 0) :
    assembleOp line op a b =
      .ok (encode op.code (UInt32.ofNat dst.val) (UInt32.ofNat src.val) imm) := by
  cases op with
  | opHalt =>
    rw [no_dst (by decide), no_src (by decide), no_imm (by decide)]
    rfl
  | opIn | opRand =>
    rw [no_src (by decide), no_imm (by decide)]
    simp only [assembleOp, hdst rfl]
    rfl
  | opAdd | opSub | opMul | opDiv =>
    rw [no_imm (by decide)]
    simp only [assembleOp, hdst rfl, hsrc rfl]
    rfl
  | opLoad | opStore | opJnz | opLi =>
    rw [no_src (by decide)]
    simp only [assembleOp, hdst rfl, himm rfl]
    rfl
  | opJump =>
    rw [no_dst (by decide), no_src (by decide)]
    simp only [assembleOp, haddr rfl]
    rfl

/-- **The operands of a statement, once written, assemble to its word.** -/
theorem assembleOp_written (s : Statement) {a b : List Char}
    (ha : ∀ o, s.op.operands[0]? = some o → o.Writes s a)
    (hb : ∀ o, s.op.operands[1]? = some o → o.Writes s b) (line : Nat) :
    assembleOp line s.op a b = .ok s.word :=
  assembleOp_fields (fun h => regOperand_writes (ha .dst h) line)
    (fun h => parseImm_writes (ha .imm h) line) (fun h => regOperand_writes (hb .src h) line)
    (fun h => parseImm_writes (hb .imm h) line) s.no_dst s.no_src s.no_imm

end RetroVM

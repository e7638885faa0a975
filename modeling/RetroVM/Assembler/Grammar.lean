import RetroVM.Assembler.Canonical

/-!
# The language of the assembler (`README.md`, "`.asm` format"; header of `assembler.cpp`)

A statement is documented as a mnemonic and its operands, a comma, white space or both between
them. The assembler reads words at white space and strips commas from their ends only, so a comma
that has white space on neither side, or on both, leaves it an operand short. What it reads it takes
loosely: `parse_reg` does not look where `atoi` stops, `strtoul` takes a sign, commas are stripped
wherever they stand, and words behind the operands are not looked at.

Results:
* `Operand.loose_iff`: which operands are taken and not written as documented.
* `assembleLine_taken`: which lines the assembler accepts.
* `documented_iff`: the documented lines are those it reads as written and those with a stranded
  comma.
* `asmExitCode_iff`: a text is assembled iff each of its lines is.
* **`assembler_accepts_documented_iff`**; `glued_comma_rejected`: `ADD R1,R2`.
-/

namespace RetroVM

open Numerals Words

/-! ## The documented language -/

/-- What is documented to stand for an operand: a register, or a literal below `2 ^ 20`. -/
def Operand.Written : Operand → List Char → Prop
  | .dst, t | .src, t => ∃ r, WritesReg r t
  | .imm, t => ∃ v, WritesImm v t

/-- What is between two operands: white space, or a comma with white space around it or not. -/
inductive Separator : List Char → Prop
  | space {s : List Char} : Blank s → s ≠ [] → Separator s
  | comma {l r : List Char} : Blank l → Blank r → Separator (l ++ ',' :: r)

/-- A line as documented: a mnemonic, and its operands and nothing else. -/
inductive Documented : List Char → Prop
  | nullary {o : Opcode} {op : List Char} :
      Spells o op → o.operands = [] → Documented op
  | unary {o : Opcode} {op gap a : List Char} {p : Operand} :
      Spells o op → o.operands = [p] → Blank gap → gap ≠ [] → p.Written a →
        Documented (op ++ (gap ++ a))
  | binary {o : Opcode} {op gap a sep b : List Char} {p p' : Operand} :
      Spells o op → o.operands = [p, p'] → Blank gap → gap ≠ [] → p.Written a →
        Separator sep → p'.Written b → Documented (op ++ (gap ++ (a ++ (sep ++ b))))

/-- A documented line whose comma has white space on neither side or on both. -/
inductive StrandedComma : List Char → Prop
  | mk {o : Opcode} {op gap a l r b : List Char} {p p' : Operand} :
      Spells o op → o.operands = [p, p'] → Blank gap → gap ≠ [] → p.Written a →
        Blank l → Blank r → (l = [] ↔ r = []) → p'.Written b →
          StrandedComma (op ++ (gap ++ (a ++ ((l ++ ',' :: r) ++ b))))

/-! ## What the assembler reads -/

/-- The words `assemble_file` extracts of a line, and the one behind them. -/
structure Fields where
  op   : List Char
  a    : List Char
  b    : List Char
  more : List Char

/-- `iss >> op_s >> a_s >> b_s`, and once more. -/
def fields (line : List Char) : Fields :=
  let (op, iss) := extract line
  let (a, iss) := extract iss
  let (b, iss) := extract iss
  ⟨op, a, b, (extract iss).1⟩

/-- The operands of `o` with the tokens for them. -/
def Fields.tokens (f : Fields) (o : Opcode) : List (Operand × List Char) :=
  o.operands.zip [stripComma f.a, stripComma f.b]

/-- What `parse_reg` and `parse_imm` take: a register is `R` and a text `atoi` makes 0 to 7 of; an
immediate is a text `strtoul` reads to its end, below `2 ^ 20`. -/
def Operand.Takes : Operand → List Char → Prop
  | .dst, t | .src, t =>
    ∃ c d u, t = c :: d :: u ∧ toupper c = 'R' ∧ 0 ≤ atoi (d :: u) ∧ atoi (d :: u) ≤ 7
  | .imm, t => t ≠ [] ∧ (strtoul t).2 = [] ∧ (strtoul t).1 ≤ 0xFFFFF

/-- The words are a mnemonic and operands its parsers take. -/
def Fields.Taken (f : Fields) : Prop := ∃ o, Spells o f.op ∧ ∀ t ∈ f.tokens o, t.1.Takes t.2

/-- There is a word behind the operands. -/
def Fields.Surplus (f : Fields) (o : Opcode) : Prop :=
  [f.a, f.b, f.more].getD o.operands.length [] ≠ []

/-- An operand is not written as documented. -/
def Fields.LooseOperand (f : Fields) (o : Opcode) : Prop := ∃ t ∈ f.tokens o, ¬ t.1.Written t.2

/-- An operand that is taken and not written as documented: a register with a sign, with no digit or
more than one, or with something behind the digits; an immediate with a sign, or with a NUL behind
the number or in its place. -/
def Operand.Loose : Operand → List Char → Prop
  | .dst, t | .src, t => ∃ (c : Char) (s : AtoiText), t = c :: s.text ∧ toupper c = 'R' ∧
      s.text ≠ [] ∧ 0 ≤ s.number ∧ s.number ≤ 7 ∧
        (s.sgn ≠ [] ∨ s.digits.length ≠ 1 ∨ s.rest ≠ [])
  | .imm, t => t.head? = some '\x00' ∨ ∃ s : StrtoulText, s.text = t ∧ s.read ≤ 0xFFFFF ∧
      (s.sgn ≠ [] ∨ s.rest ≠ [])

/-- The commas stripped are one at most, at the end of the first of two operands or the start of the
second. -/
def CommasBetween : List Operand → List Char → List Char → Prop
  | [], _, _ => True
  | [_], a, _ => a = stripComma a
  | _, a, b => ∃ comma comma', OptionalComma comma ∧ OptionalComma comma' ∧
      (comma = [] ∨ comma' = []) ∧ a = stripComma a ++ comma ∧ b = comma' ++ stripComma b

/-- A line that is taken although it has words behind its operands, a loose operand, or commas
elsewhere than between its operands. -/
def Loose (line : List Char) : Prop :=
  let f := fields line
  ∃ o, Spells o f.op ∧ (∀ t ∈ f.tokens o, t.1.Takes t.2) ∧
    (f.Surplus o ∨ (∃ t ∈ f.tokens o, t.1.Loose t.2) ∨ ¬ CommasBetween o.operands f.a f.b)

/-- The line is accepted. -/
def Accepts (raw : List Char) : Prop := ∃ w, assembleLine 1 raw = .ok w

/-! ## The parsers -/

theorem regOperand_iff {line : Nat} {t : List Char} :
    (∃ v, regOperand line t = .ok v) ↔ Operand.dst.Takes t := by
  unfold regOperand parseReg Operand.Takes
  match t with
  | [] => simp
  | [c] => simp
  | c :: d :: u =>
    simp only [List.cons.injEq]
    by_cases hc : toupper c = 'R'
    · by_cases hn : 0 ≤ atoi (d :: u) ∧ atoi (d :: u) ≤ 7
      · rw [if_neg (not_not.mpr hc), dif_pos hn]
        exact ⟨fun _ => ⟨c, d, u, ⟨rfl, rfl, rfl⟩, hc, hn⟩, fun _ => ⟨_, rfl⟩⟩
      · rw [if_neg (not_not.mpr hc), dif_neg hn]
        constructor
        · rintro ⟨v, ⟨⟩⟩
        · rintro ⟨c', d', u', ⟨rfl, rfl, rfl⟩, -, hn'⟩
          exact absurd hn' hn
    · rw [if_pos hc]
      constructor
      · rintro ⟨v, ⟨⟩⟩
      · rintro ⟨c', d', u', ⟨rfl, rfl, rfl⟩, hc', -⟩
        exact absurd hc' hc

theorem parseImm_iff {line : Nat} {t : List Char} :
    (∃ v, parseImm line t = .ok v) ↔ Operand.imm.Takes t := by
  unfold parseImm Operand.Takes
  by_cases hne : t = []
  · simp [hne]
  · by_cases hrest : (strtoul t).2 = []
    · by_cases hv : (strtoul t).1 ≤ 0xFFFFF
      · simp [hne, hrest, hv, UInt64.not_lt.mpr hv]
      · simp [hne, hrest, hv, UInt64.not_le.mp hv]
    · simp [hne, hrest]

/-- One operand, then the word. -/
theorem exists_ok_map {ε α β : Type} {x : Except ε α} {f : α → β} :
    (∃ w, (do let u ← x; return f u) = Except.ok w) ↔ ∃ u, x = .ok u := by
  cases x with
  | error e =>
    constructor
    · rintro ⟨w, ⟨⟩⟩
    · rintro ⟨u, ⟨⟩⟩
  | ok u => exact ⟨fun _ => ⟨u, rfl⟩, fun _ => ⟨f u, rfl⟩⟩

/-- Two operands, then the word. -/
theorem exists_ok_map₂ {ε α β γ : Type} {x : Except ε α} {y : Except ε β} {f : α → β → γ} :
    (∃ w, (do let u ← x; let v ← y; return f u v) = Except.ok w) ↔
      (∃ u, x = .ok u) ∧ ∃ v, y = .ok v := by
  cases x with
  | error e =>
    constructor
    · rintro ⟨w, ⟨⟩⟩
    · rintro ⟨⟨u, ⟨⟩⟩, -⟩
  | ok u => exact (exists_ok_map (f := f u)).trans ⟨fun h => ⟨⟨u, rfl⟩, h⟩, fun h => h.2⟩

/-- **The `switch` accepts what the parsers take.** -/
theorem assembleOp_iff {line : Nat} {o : Opcode} {a b : List Char} :
    (∃ w, assembleOp line o a b = .ok w) ↔ ∀ t ∈ o.operands.zip [a, b], t.1.Takes t.2 := by
  have hreg : ∀ t, (∃ v, regOperand line t = .ok v) ↔ Operand.dst.Takes t := fun _ => regOperand_iff
  have hsrc : ∀ t, (∃ v, regOperand line t = .ok v) ↔ Operand.src.Takes t := fun _ => regOperand_iff
  have himm : ∀ t, (∃ v, parseImm line t = .ok v) ↔ Operand.imm.Takes t := fun _ => parseImm_iff
  cases o with
  | opHalt => simp [Opcode.operands, assembleOp]
  | opIn | opRand =>
    refine exists_ok_map.trans ?_
    simp [Opcode.operands, hreg]
  | opAdd | opSub | opMul | opDiv =>
    refine exists_ok_map₂.trans ?_
    rw [hreg, hsrc]
    simp [Opcode.operands]
  | opLoad | opStore | opJnz | opLi =>
    refine exists_ok_map₂.trans ?_
    rw [hreg, himm]
    simp [Opcode.operands]
  | opJump =>
    refine exists_ok_map.trans ?_
    simp [Opcode.operands, himm]

theorem Operand.Written.plain {p : Operand} {t : List Char} (h : p.Written t) :
    ∀ c ∈ t, Plain c := by
  cases p with
  | dst | src =>
    obtain ⟨r, hr⟩ := h
    exact hr.plain
  | imm =>
    obtain ⟨v, n, hlit, -⟩ := h
    exact hlit.plain

theorem Operand.Written.ne_nil {p : Operand} {t : List Char} (h : p.Written t) : t ≠ [] := by
  cases p with
  | dst | src =>
    obtain ⟨r, c, -, rfl⟩ := h
    exact List.cons_ne_nil _ _
  | imm =>
    obtain ⟨v, n, hlit, -⟩ := h
    exact hlit.ne_nil

/-- What is written as documented is taken. -/
theorem Operand.Written.takes {p : Operand} {t : List Char} (h : p.Written t) : p.Takes t := by
  cases p with
  | dst | src =>
    obtain ⟨r, hr⟩ := h
    exact regOperand_iff.mp ⟨_, regOperand_writes hr 0⟩
  | imm =>
    obtain ⟨v, hv⟩ := h
    exact parseImm_iff.mp ⟨v, parseImm_writes hv 0⟩

/-- Nothing is no operand. -/
theorem Operand.not_takes_nil (p : Operand) : ¬ p.Takes [] := by
  cases p with
  | dst | src =>
    rintro ⟨c, d, u, h, -⟩
    cases h
  | imm => exact fun h => h.1 rfl

/-! ## Loose operands -/

/-- The registers that are taken. -/
theorem takes_reg_iff {t : List Char} (hw : ∀ c ∈ t, isspace c = false) :
    Operand.dst.Takes t ↔ ∃ (c : Char) (s : AtoiText), t = c :: s.text ∧ toupper c = 'R' ∧
      s.text ≠ [] ∧ 0 ≤ s.number ∧ s.number ≤ 7 := by
  constructor
  · rintro ⟨c, d, u, rfl, hc, hn⟩
    obtain ⟨s, hs⟩ := exists_atoiText (d :: u)
    rw [← hs, atoi_text s fun c hc => hw c (List.mem_cons_of_mem _ (hs ▸ hc))] at hn
    exact ⟨c, s, by rw [hs], hc, by rw [hs]; exact List.cons_ne_nil _ _, hn⟩
  · rintro ⟨c, s, rfl, hc, hne, hn⟩
    obtain ⟨d, u, hs⟩ := List.exists_cons_of_ne_nil hne
    rw [← atoi_text s fun c hc => hw c (List.mem_cons_of_mem _ hc), hs] at hn
    exact ⟨c, d, u, by rw [hs], hc, hn⟩


theorem looseReg_iff {t : List Char} (hw : ∀ c ∈ t, isspace c = false) :
    Operand.dst.Takes t ∧ ¬ Operand.dst.Written t ↔ Operand.dst.Loose t := by
  rw [takes_reg_iff hw]
  constructor
  · rintro ⟨⟨c, s, rfl, hc, hne, hlow, hhigh⟩, hloose⟩
    refine ⟨c, s, rfl, hc, hne, hlow, hhigh, ?_⟩
    by_contra hbare
    simp only [not_or, not_not] at hbare
    obtain ⟨hsgn, hone, hrest⟩ := hbare
    obtain ⟨d, hd⟩ := List.length_eq_one_iff.mp hone
    obtain ⟨n, hn, hdigit, rfl⟩ := eq_digitChar (s.isDigits d (by simp [hd]))
    have hint : ∀ n : Nat, n < 10 → (min (n : Int) (2 ^ 63 - 1)).bmod (2 ^ 32) = n := by
      decide +kernel
    have hnumber : s.number = n := by
      simpa [AtoiText.number, hsgn, hd, value, hdigit] using hint n hn
    refine hloose ⟨⟨n, by omega⟩, c, eq_of_toupper hc, ?_⟩
    simp [AtoiText.text, hsgn, hd, hrest]
  · rintro ⟨c, s, rfl, hc, hne, hlow, hhigh, hbad⟩
    refine ⟨⟨c, s, rfl, hc, hne, hlow, hhigh⟩, ?_⟩
    rintro ⟨r, c', -, heq⟩
    have htext : s.text = [Nat.digitChar r.val] := (List.cons.inj heq).2
    have hdigit : digit 10 (Nat.digitChar r.val) = some r.val :=
      digit_digitChar (by omega) (by decide)
    -- a sign is no digit, and what is behind the digits starts with none
    have hplain : Plain (Nat.digitChar r.val) := plain_of_digit (b := 10) (by rw [hdigit]; rfl)
    have hsgn : s.sgn = [] := sign_eq_nil s.sgn_mem fun c hc => by
      have hmem : c ∈ s.text := List.mem_append_left _ hc
      rw [htext, List.mem_singleton] at hmem
      exact hmem ▸ hplain
    have hbody : s.digits ++ s.rest = [Nat.digitChar r.val] := by
      rw [← htext, AtoiText.text, hsgn, List.nil_append]
    cases hds : s.digits with
    | nil =>
      rw [hds, List.nil_append] at hbody
      have hnone := s.rest_head (Nat.digitChar r.val) (by rw [hbody]; rfl)
      rw [hdigit] at hnone
      cases hnone
    | cons d u =>
      rw [hds] at hbody
      obtain ⟨hu, hrest⟩ := List.append_eq_nil_iff.mp (List.cons.inj hbody).2
      rw [hds, hu] at hbad
      simp [hsgn, hrest] at hbad

theorem looseImm_iff {t : List Char} (hw : ∀ c ∈ t, isspace c = false) :
    Operand.imm.Takes t ∧ ¬ Operand.imm.Written t ↔ Operand.imm.Loose t := by
  constructor
  · rintro ⟨⟨hne, hend, hle⟩, hloose⟩
    by_cases hnul : cStr t = []
    · left
      obtain ⟨rest, ht, hhidden⟩ := exists_hidden t
      rw [hnul, List.nil_append] at ht
      obtain ⟨c, u, hc⟩ := List.exists_cons_of_ne_nil hne
      rw [← ht, hc] at hhidden
      rw [hc, hhidden c rfl]
      rfl
    · right
      obtain ⟨s, rfl⟩ := strtoulText_of_read hw hend hnul
      rw [strtoul_text s hw] at hle
      refine ⟨s, rfl, hle, ?_⟩
      by_contra hbare
      simp only [not_or, not_not] at hbare
      obtain ⟨hsgn, hrest⟩ := hbare
      have htext : s.text = s.lit := by
        simp [StrtoulText.text, hsgn, hrest]
      have hsmall : s.number < 2 ^ 20 := by
        unfold StrtoulText.read at hle
        split at hle
        · exact absurd hle (by decide)
        · next hfits =>
          rw [if_neg (by rw [hsgn]; decide), UInt64.le_iff_toNat_le,
            UInt64.toNat_ofNat_of_lt' (Nat.lt_of_not_le hfits)] at hle
          exact Nat.lt_succ_of_le hle
      exact hloose ⟨_, s.number, htext ▸ s.literal, hsmall, rfl⟩
  · rintro (hnul | ⟨s, rfl, hle, hbad⟩)
    · obtain ⟨u, rfl⟩ := List.head?_eq_some_iff.mp hnul
      have hcstr : cStr ('\x00' :: u) = [] := cStr_of_hidden fun c hc => (Option.some.inj hc).symm
      have hread : strtoul ('\x00' :: u) = (0, []) := by
        unfold strtoul
        rw [hcstr]
        rfl
      refine ⟨⟨List.cons_ne_nil _ _, by rw [hread], by rw [hread]; decide⟩, ?_⟩
      rintro ⟨v, n, hlit, -⟩
      exact (hlit.plain _ List.mem_cons_self).2.2.2.1 rfl
    · have hne : s.text ≠ [] := by
        simp [StrtoulText.text, s.literal.ne_nil]
      refine ⟨⟨hne, by rw [strtoul_text s hw], by rw [strtoul_text s hw]; exact hle⟩, ?_⟩
      rintro ⟨v, n, hlit, -⟩
      have hplain := hlit.plain
      rcases hbad with hsgn | hrest
      · exact hsgn (sign_eq_nil s.sgn_mem fun c hc => hplain c (List.mem_append_left _ hc))
      · obtain ⟨c, u, hc⟩ := List.exists_cons_of_ne_nil hrest
        have hnul := s.hidden c (by rw [hc]; rfl)
        exact (hplain c (by simp [StrtoulText.text, hc])).2.2.2.1 hnul

/-- **Which operands are loose**: those taken and not written as documented. -/
theorem Operand.loose_iff {p : Operand} {t : List Char} (hw : ∀ c ∈ t, isspace c = false) :
    p.Loose t ↔ p.Takes t ∧ ¬ p.Written t := by
  cases p with
  | dst | src => exact (looseReg_iff hw).symm
  | imm => exact (looseImm_iff hw).symm

/-- There is no white space in a word that was extracted. -/
theorem extract_solid (s : List Char) : ∀ c ∈ (extract s).1, isspace c = false := by
  intro c hc
  simpa using List.mem_takeWhile_imp hc

theorem tokens_solid {line : List Char} {o : Opcode} :
    ∀ t ∈ (fields line).tokens o, ∀ c ∈ t.2, isspace c = false := by
  have hstrip : ∀ s c, c ∈ stripComma s → c ∈ s := fun s c hc =>
    (List.rdropWhile_prefix _ s).subset (List.dropWhile_subset _ hc)
  intro t ht c hc
  have htoken := (List.of_mem_zip ht).2
  simp only [List.mem_cons, List.not_mem_nil, or_false] at htoken
  rcases htoken with h | h
  · rw [h] at hc
    exact extract_solid _ c (hstrip _ c hc)
  · rw [h] at hc
    exact extract_solid _ c (hstrip _ c hc)

/-- Of words that are taken, the loose ones are those not written as documented. -/
theorem looseOperand_iff {line : List Char} {o : Opcode}
    (htaken : ∀ t ∈ (fields line).tokens o, t.1.Takes t.2) :
    (∃ t ∈ (fields line).tokens o, t.1.Loose t.2) ↔ (fields line).LooseOperand o := by
  unfold Fields.LooseOperand
  constructor
  · rintro ⟨t, ht, hloose⟩
    exact ⟨t, ht, ((Operand.loose_iff (tokens_solid t ht)).mp hloose).2⟩
  · rintro ⟨t, ht, hloose⟩
    exact ⟨t, ht, (Operand.loose_iff (tokens_solid t ht)).mpr ⟨htaken t ht, hloose⟩⟩

/-! ## Accepted lines -/

theorem findOpcode_iff {o : Opcode} {t : List Char} :
    findOpcode (t.map toupper) = some o ↔ Spells o t := by
  constructor
  · intro h
    have hkey := List.find?_some h
    exact (of_decide_eq_true hkey).symm
  · exact findOpcode_spells

theorem Spells.unique {o o' : Opcode} {t : List Char} (h : Spells o t) (h' : Spells o' t) :
    o = o' :=
  Option.some.inj ((findOpcode_spells h).symm.trans (findOpcode_spells h'))

/-- **Which lines are accepted**: those of which the words are taken. -/
theorem assembleLine_taken {raw : List Char} (hne : trim (stripComment raw) ≠ [])
    (lineno : Nat) : (∃ w, assembleLine lineno raw = .ok w) ↔
      (fields (trim (stripComment raw))).Taken := by
  unfold assembleLine
  rw [if_neg hne]
  simp only
  set f := fields (trim (stripComment raw))
  have hop : (extract (trim (stripComment raw))).1 = f.op := rfl
  unfold Fields.Taken
  cases h : findOpcode (f.op.map toupper) with
  | none =>
    rw [hop, h]
    constructor
    · rintro ⟨w, ⟨⟩⟩
    · rintro ⟨o, ho, -⟩
      cases (findOpcode_iff.mpr ho).symm.trans h
  | some o =>
    have ho := findOpcode_iff.mp h
    rw [hop, h]
    change (∃ w, (assembleOp lineno o (stripComma f.a) (stripComma f.b)).map some = .ok w) ↔ _
    have hmap : (∃ w, (assembleOp lineno o (stripComma f.a) (stripComma f.b)).map some = .ok w) ↔
        ∃ w, assembleOp lineno o (stripComma f.a) (stripComma f.b) = .ok w := by
      cases assembleOp lineno o (stripComma f.a) (stripComma f.b) <;> simp [Except.map]
    rw [hmap, assembleOp_iff]
    constructor
    · exact fun htaken => ⟨o, ho, htaken⟩
    · rintro ⟨o', ho', htaken⟩
      rwa [ho.unique ho']

/-! ## Documented lines -/

/-- The words are read as written: a mnemonic, its operands and nothing else, a comma at most
between them. -/
def Fields.Exact (f : Fields) : Prop :=
  ∃ o, Spells o f.op ∧ ¬ f.Surplus o ∧ ¬ f.LooseOperand o ∧ CommasBetween o.operands f.a f.b

theorem loose_iff {line : List Char} :
    Loose line ↔ (fields line).Taken ∧ ¬ (fields line).Exact := by
  constructor
  · rintro ⟨o, ho, htaken, hwhy⟩
    refine ⟨⟨o, ho, htaken⟩, ?_⟩
    rintro ⟨o', ho', hsurplus, hloose, hcommas⟩
    obtain rfl := ho.unique ho'
    rw [looseOperand_iff htaken] at hwhy
    rcases hwhy with h | h | h
    · exact hsurplus h
    · exact hloose h
    · exact h hcommas
  · rintro ⟨⟨o, ho, htaken⟩, hexact⟩
    refine ⟨o, ho, htaken, ?_⟩
    rw [looseOperand_iff htaken]
    by_contra hnone
    obtain ⟨hsurplus, hloose, hcommas⟩ := by simpa only [not_or] using hnone
    exact hexact ⟨o, ho, hsurplus, hloose, not_not.mp hcommas⟩

/-- What is read as written is taken. -/
theorem Fields.Exact.taken {f : Fields} (h : f.Exact) : f.Taken := by
  obtain ⟨o, ho, -, hwritten, -⟩ := h
  refine ⟨o, ho, fun t ht => ?_⟩
  by_cases hw : t.1.Written t.2
  · exact hw.takes
  · exact absurd ⟨t, ht, hw⟩ hwritten

theorem Operand.Written.word {p : Operand} {t : List Char} (h : p.Written t) : Word isspace t :=
  word_of_plain h.ne_nil h.plain

theorem operands_shape (o : Opcode) :
    o.operands = [] ∨ (∃ p, o.operands = [p]) ∨ ∃ p p', o.operands = [p, p'] := by
  cases o <;> simp [Opcode.operands]

section Words

variable {op gap a gap' b : List Char}

theorem fields_one (hop : Word isspace op) : fields op = ⟨op, [], [], []⟩ := by
  have h : extract op = (op, []) := extract_last Gap.nil hop
  unfold fields
  simp only [h, extract_nil]

theorem fields_two (hop : Word isspace op) (hgap : Blank gap) (hne : gap ≠ [])
    (ha : Word isspace a) : fields (op ++ (gap ++ a)) = ⟨op, a, [], []⟩ := by
  have h : extract (op ++ (gap ++ a)) = (op, gap ++ a) := extract_word hop (Behind.of_gap hgap hne)
  have h' : extract (gap ++ a) = (a, []) := extract_last hgap ha
  unfold fields
  simp only [h, h', extract_nil]

theorem fields_words {rest : List Char} (hop : Word isspace op) (hgap : Blank gap)
    (hne : gap ≠ []) (ha : Word isspace a) (hgap' : Blank gap') (hne' : gap' ≠ [])
    (hb : Word isspace b) (hrest : Behind isspace rest) :
    fields (op ++ (gap ++ (a ++ (gap' ++ (b ++ rest))))) = ⟨op, a, b, (extract rest).1⟩ := by
  have h : extract (op ++ (gap ++ (a ++ (gap' ++ (b ++ rest))))) =
      (op, gap ++ (a ++ (gap' ++ (b ++ rest)))) := extract_word hop (Behind.of_gap hgap hne)
  have h' : extract (gap ++ (a ++ (gap' ++ (b ++ rest)))) = (a, gap' ++ (b ++ rest)) :=
    extract_append hgap ha (Behind.of_gap hgap' hne')
  have h'' : extract (gap' ++ (b ++ rest)) = (b, rest) := extract_append hgap' hb hrest
  unfold fields
  simp only [h, h', h'']

theorem fields_three (hop : Word isspace op) (hgap : Blank gap) (hne : gap ≠ [])
    (ha : Word isspace a) (hgap' : Blank gap') (hne' : gap' ≠ []) (hb : Word isspace b) :
    fields (op ++ (gap ++ (a ++ (gap' ++ b)))) = ⟨op, a, b, []⟩ := by
  have h := fields_words hop hgap hne ha hgap' hne' hb Behind.nil
  rwa [List.append_nil] at h

end Words

/-- An operand between commas, read as one word. -/
theorem Operand.Written.between {p : Operand} {a comma comma' : List Char} (h : p.Written a)
    (hc : OptionalComma comma) (hc' : OptionalComma comma') :
    Word isspace (comma ++ a ++ comma') ∧ stripComma (comma ++ a ++ comma') = a := by
  have hsolid : ∀ s : List Char, OptionalComma s → ∀ c ∈ s, isspace c = false := by
    intro s hs c hc
    rw [hs.eq_comma c hc]
    rfl
  refine ⟨⟨?_, ?_⟩, stripComma_around comma a comma' hc.eq_comma hc'.eq_comma h.plain⟩
  · simp [h.ne_nil]
  · simp only [List.forall_mem_append]
    exact ⟨⟨hsolid _ hc, h.word.solid⟩, hsolid _ hc'⟩

/-- Two operands with a comma at most between them are read as written. -/
theorem exact_binary {o : Opcode} {op gap a comma gap' comma' b : List Char} {p p' : Operand}
    (hop : Spells o op) (htwo : o.operands = [p, p']) (hgap : Blank gap) (hne : gap ≠ [])
    (ha : p.Written a) (hcomma : OptionalComma comma) (hgap' : Blank gap') (hne' : gap' ≠ [])
    (hcomma' : OptionalComma comma') (hone : comma = [] ∨ comma' = []) (hb : p'.Written b) :
    (fields (op ++ (gap ++ ((a ++ comma) ++ (gap' ++ (comma' ++ b)))))).Exact := by
  obtain ⟨haword, hastrip⟩ := ha.between (.inl rfl) hcomma
  obtain ⟨hbword, hbstrip⟩ := hb.between hcomma' (.inl rfl)
  rw [List.nil_append] at haword hastrip
  rw [List.append_nil] at hbword hbstrip
  rw [fields_three hop.word hgap hne haword hgap' hne' hbword]
  refine ⟨o, hop, ?_, ?_, ?_⟩
  · simp [Fields.Surplus, htwo]
  · rintro ⟨t, ht, hloose⟩
    simp only [Fields.tokens, htwo, hastrip, hbstrip, List.zip_cons_cons, List.zip_nil_left,
      List.mem_cons, List.not_mem_nil, or_false] at ht
    rcases ht with rfl | rfl
    · exact hloose ha
    · exact hloose hb
  · rw [htwo]
    exact ⟨comma, comma', hcomma, hcomma', hone, by rw [hastrip], by rw [hbstrip]⟩

/-- A documented line is read as written, unless its comma is stranded. -/
theorem Documented.exact {line : List Char} (h : Documented line) :
    (fields line).Exact ∨ StrandedComma line := by
  rcases h with ⟨hop, hnone⟩ | ⟨hop, hone, hgap, hne, ha⟩ | ⟨hop, htwo, hgap, hne, ha, hsep, hb⟩
  · left
    rw [fields_one hop.word]
    refine ⟨_, hop, ?_, ?_, ?_⟩
    · simp [Fields.Surplus, hnone]
    · simp [Fields.LooseOperand, Fields.tokens, hnone]
    · rw [hnone]
      trivial
  · left
    rw [fields_two hop.word hgap hne ha.word]
    have hstrip := stripComma_plain ha.plain
    refine ⟨_, hop, ?_, ?_, ?_⟩
    · simp [Fields.Surplus, hone]
    · simp [Fields.LooseOperand, Fields.tokens, hone, hstrip, ha]
    · rw [hone]
      exact hstrip.symm
  · -- where the white space is says which word the comma is part of
    rcases hsep with ⟨hs, hsne⟩ | @⟨l, r, hl, hr⟩
    · have h := exact_binary hop htwo hgap hne ha (.inl rfl) hs hsne (.inl rfl) (.inl rfl) hb
      rw [List.append_nil, List.nil_append] at h
      exact .inl h
    · by_cases hlnil : l = []
      · by_cases hrnil : r = []
        · exact .inr (.mk hop htwo hgap hne ha hl hr (by simp [hlnil, hrnil]) hb)
        · have h := exact_binary hop htwo hgap hne ha (.inr rfl) hr hrnil (.inl rfl) (.inr rfl) hb
          refine .inl ?_
          simpa [hlnil] using h
      · by_cases hrnil : r = []
        · have h := exact_binary hop htwo hgap hne ha (.inl rfl) hl hlnil (.inr rfl) (.inl rfl) hb
          refine .inl ?_
          simpa [hrnil] using h
        · exact .inr (.mk hop htwo hgap hne ha hl hr (by simp [hlnil, hrnil]) hb)

theorem StrandedComma.documented {line : List Char} (h : StrandedComma line) :
    Documented line := by
  obtain ⟨hop, htwo, hgap, hne, ha, hl, hr, -, hb⟩ := h
  exact .binary hop htwo hgap hne ha (.comma hl hr) hb

/-- **A stranded comma leaves the second operand out.** -/
theorem StrandedComma.not_taken {line : List Char} (h : StrandedComma line) :
    ¬ (fields line).Taken := by
  obtain @⟨o, op, gap, a, l, r, b, p, p', hop, htwo, hgap, hne, ha, hl, hr, hside, hb⟩ := h
  suffices hlost :
      stripComma (fields (op ++ (gap ++ (a ++ ((l ++ ',' :: r) ++ b))))).b = [] ∧
        (fields (op ++ (gap ++ (a ++ ((l ++ ',' :: r) ++ b))))).op = op by
    obtain ⟨hb, hop'⟩ := hlost
    rintro ⟨o', ho', htaken⟩
    rw [hop'] at ho'
    obtain rfl := ho'.unique hop
    refine p'.not_takes_nil (htaken (p', []) ?_)
    rw [Fields.tokens, htwo, hb]
    exact List.mem_cons_of_mem _ List.mem_cons_self
  by_cases hlnil : l = []
  · -- the operands are one word
    obtain rfl := hlnil
    obtain rfl := hside.mp rfl
    have hword : Word isspace (a ++ ([','] ++ b)) := by
      refine ha.word.append ?_
      rw [List.forall_mem_append]
      exact ⟨by decide, hb.word.solid⟩
    rw [show [] ++ ',' :: [] = [','] from rfl, fields_two hop.word hgap hne hword]
    exact ⟨rfl, rfl⟩
  · -- the comma is a word
    have hrnil : r ≠ [] := fun h => hlnil (hside.mpr h)
    have hcomma : Word isspace [','] := ⟨List.cons_ne_nil _ _, by decide⟩
    have hline : op ++ (gap ++ (a ++ ((l ++ ',' :: r) ++ b))) =
        op ++ (gap ++ (a ++ (l ++ ([','] ++ (r ++ b))))) := by simp
    rw [hline, fields_words hop.word hgap hne ha.word hl hlnil hcomma (Behind.of_gap hr hrnil)]
    exact ⟨rfl, rfl⟩

/-- White space with a comma at most at one of its ends separates. -/
theorem separator_of_commas {comma gap comma' : List Char} (hcomma : OptionalComma comma)
    (hgap : Blank gap) (hne : gap ≠ []) (hcomma' : OptionalComma comma')
    (hwhere : comma = [] ∨ comma' = []) : Separator (comma ++ (gap ++ comma')) := by
  rcases hcomma with rfl | rfl
  · rcases hcomma' with rfl | rfl
    · rw [List.append_nil]
      exact .space hgap hne
    · exact .comma hgap Gap.nil
  · obtain rfl : comma' = [] := hwhere.resolve_left (List.cons_ne_nil _ _)
    rw [List.append_nil]
    exact .comma Gap.nil hgap

/-- **What is read as written is documented.** -/
theorem documented_of_exact {line : List Char}
    (hhead : ∀ c, line.head? = some c → isspace c = false)
    (hlast : ∀ c, line.getLast? = some c → isspace c = false) (h : (fields line).Exact) :
    Documented line := by
  obtain ⟨o, hop, hsurplus, hloose, hcommas⟩ := h
  have hwritten : ∀ t ∈ (fields line).tokens o, t.1.Written t.2 := fun t ht =>
    not_not.mp fun hw => hloose ⟨t, ht, hw⟩
  obtain ⟨-, hs, hline⟩ := extract_head (p := isspace) hhead hop.ne_nil
  have hend := hlast
  rw [hline] at hend
  rcases operands_shape o with hnone | ⟨p, hone⟩ | ⟨p, p', htwo⟩
  · rw [Fields.Surplus, hnone] at hsurplus
    have hrest := gap_eq_nil hend (gap_of_extract_nil (not_not.mp hsurplus))
    rw [hrest, List.append_nil] at hline
    rw [hline]
    exact .nullary hop hnone
  · rw [hone] at hcommas
    rw [Fields.Surplus, hone] at hsurplus
    have ha : p.Written (fields line).a := by
      rw [show (fields line).a = stripComma (fields line).a from hcommas]
      exact hwritten (p, _) (by rw [Fields.tokens, hone]; exact List.mem_cons_self)
    obtain ⟨gap, hgap, hne, -, -, heq⟩ := extract_behind (p := isspace) hs ha.ne_nil
    rw [heq, ← List.append_assoc, ← List.append_assoc] at hend
    have hrest := gap_eq_nil hend (gap_of_extract_nil (not_not.mp hsurplus))
    rw [hrest, List.append_nil] at heq
    rw [hline, heq]
    exact .unary hop hone hgap hne ha
  · rw [htwo] at hcommas
    rw [Fields.Surplus, htwo] at hsurplus
    obtain ⟨comma, comma', hcomma, hcomma', hwhere, ha', hb'⟩ := hcommas
    have ha : p.Written (stripComma (fields line).a) :=
      hwritten (p, _) (by rw [Fields.tokens, htwo]; exact List.mem_cons_self)
    have hb : p'.Written (stripComma (fields line).b) :=
      hwritten (p', _)
        (by rw [Fields.tokens, htwo]; exact List.mem_cons_of_mem _ List.mem_cons_self)
    have hane : (fields line).a ≠ [] := by
      rw [ha']
      exact List.append_ne_nil_of_left_ne_nil ha.ne_nil _
    have hbne : (fields line).b ≠ [] := by
      rw [hb']
      exact List.append_ne_nil_of_right_ne_nil _ hb.ne_nil
    obtain ⟨gap, hgap, hne, -, hs', heq⟩ := extract_behind (p := isspace) hs hane
    obtain ⟨gap', hgap', hne', -, -, heq'⟩ := extract_behind (p := isspace) hs' hbne
    rw [heq, heq', ← List.append_assoc, ← List.append_assoc, ← List.append_assoc,
      ← List.append_assoc] at hend
    have hrest := gap_eq_nil hend (gap_of_extract_nil (not_not.mp hsurplus))
    rw [hrest, List.append_nil] at heq'
    have hsep := separator_of_commas hcomma hgap' hne' hcomma' hwhere
    have h := Documented.binary hop htwo hgap hne ha hsep hb
    rw [hline, heq, heq']
    change Documented ((fields line).op ++ (gap ++ ((fields line).a ++ (gap' ++ (fields line).b))))
    rw [ha', hb']
    simpa only [List.append_assoc] using h

/-- **The documented lines** are those read as written and those with a stranded comma. -/
theorem documented_iff {line : List Char}
    (hhead : ∀ c, line.head? = some c → isspace c = false)
    (hlast : ∀ c, line.getLast? = some c → isspace c = false) :
    Documented line ↔ (fields line).Exact ∨ StrandedComma line := by
  constructor
  · exact Documented.exact
  · rintro (h | h)
    · exact documented_of_exact hhead hlast h
    · exact h.documented

/-! ## Texts -/

/-- Whether a line is accepted does not depend on where it stands. -/
theorem accepts_at {raw : List Char} (lineno : Nat) :
    (∃ w, assembleLine lineno raw = .ok w) ↔ Accepts raw := by
  by_cases hne : trim (stripComment raw) = []
  · have hblank : ∀ n, ∃ w, assembleLine n raw = .ok w := fun n => ⟨none, if_pos hne⟩
    exact ⟨fun _ => hblank 1, fun _ => hblank lineno⟩
  · exact (assembleLine_taken hne lineno).trans (assembleLine_taken hne 1).symm

theorem assembleLines_iff {lines : List (List Char)} (lineno : Nat) (outInstrs : List UInt32) :
    (∃ ws, assembleLines lineno outInstrs lines = .ok ws) ↔ ∀ raw ∈ lines, Accepts raw := by
  induction lines generalizing lineno outInstrs with
  | nil => exact ⟨fun _ raw h => absurd h List.not_mem_nil, fun _ => ⟨_, rfl⟩⟩
  | cons raw rest ih =>
    rw [List.forall_mem_cons, ← accepts_at (lineno + 1)]
    unfold assembleLines
    cases assembleLine (lineno + 1) raw with
    | error e =>
      constructor
      · rintro ⟨ws, ⟨⟩⟩
      · rintro ⟨⟨w, ⟨⟩⟩, -⟩
    | ok w =>
      cases w with
      | none => exact (ih _ _).trans ⟨fun h => ⟨⟨_, rfl⟩, h⟩, fun h => h.2⟩
      | some w => exact (ih _ _).trans ⟨fun h => ⟨⟨_, rfl⟩, h⟩, fun h => h.2⟩

/-- **A text is assembled iff each of its lines is accepted.** -/
theorem asmExitCode_iff {text : List Char} :
    asmExitCode (assembleFile (some text) true) = 1 ↔ ∃ raw ∈ getlines text, ¬ Accepts raw := by
  have hlines := @assembleLines_iff (getlines text) 0 []
  have hcode : asmExitCode (assembleFile (some text) true) = 1 ↔
      ¬ ∃ ws, assembleLines 0 [] (getlines text) = .ok ws := by
    simp only [assembleFile]
    cases assembleLines 0 [] (getlines text) <;> simp [asmExitCode]
  rw [hcode, hlines]
  simp only [not_forall, exists_prop]

/-! ## The language -/

/-- **When the assembler takes what is documented.** A text is rejected iff one of its lines is; and
for every line that is not blank, the assembler accepts it iff it is documented, exactly where it is
neither a documented line with a stranded comma nor a loose one. -/
theorem assembler_accepts_documented_iff (text raw : List Char)
    (hne : trim (stripComment raw) ≠ []) :
    (asmExitCode (assembleFile (some text) true) = 1 ↔ ∃ raw ∈ getlines text, ¬ Accepts raw) ∧
    let line := trim (stripComment raw)
    ((Accepts raw ↔ Documented line) ↔ ¬ StrandedComma line ∧ ¬ Loose line) := by
  refine ⟨asmExitCode_iff, ?_⟩
  intro line
  obtain ⟨hhead, hlast⟩ := trim_ends (p := isspace) (stripComment raw)
  have haccepts : Accepts raw ↔ (fields line).Taken := assembleLine_taken hne 1
  have hdocumented : Documented line ↔ (fields line).Exact ∨ StrandedComma line :=
    documented_iff hhead hlast
  have hexact : (fields line).Exact → (fields line).Taken := Fields.Exact.taken
  have hstranded : StrandedComma line → ¬ (fields line).Taken := StrandedComma.not_taken
  rw [haccepts, hdocumented, loose_iff]
  tauto

/-- `ADD R1, R2` is accepted and documented; `IN RX` is one of the two only. -/
theorem assembler_accepts_documented_add :
    (Accepts "ADD R1, R2".toList ↔ Documented "ADD R1, R2".toList) ∧
      ¬ (Accepts "IN RX".toList ↔ Documented "IN RX".toList) := by
  have hadd := (assembler_accepts_documented_iff [] "ADD R1, R2".toList (by decide)).2
  have hin := (assembler_accepts_documented_iff [] "IN RX".toList (by decide)).2
  have haddLine : trim (stripComment "ADD R1, R2".toList) = "ADD R1, R2".toList := by decide
  have hinLine : trim (stripComment "IN RX".toList) = "IN RX".toList := by decide
  rw [haddLine] at hadd
  rw [hinLine] at hin
  have hexact : (fields "ADD R1, R2".toList).Exact :=
    @exact_binary .opAdd "ADD".toList [' '] "R1".toList [','] [' '] [] "R2".toList .dst .src
      (by decide) rfl (by decide) (by decide) ⟨1, 'R', .inl rfl, by decide⟩ (.inr rfl) (by decide)
      (by decide) (.inl rfl) (.inr rfl) ⟨2, 'R', .inl rfl, by decide⟩
  have hloose : Loose "IN RX".toList := by
    have htokens : (fields "IN RX".toList).tokens .opIn = [(.dst, "RX".toList)] := by decide
    refine ⟨.opIn, by decide, ?_, .inr (.inl ⟨(.dst, "RX".toList), by decide, ?_⟩)⟩
    · rw [htokens]
      rintro t ht
      rw [List.mem_singleton.mp ht]
      exact ⟨'R', 'X', [], by decide, by decide, by decide, by decide⟩
    · have hhead : ∀ c, ['X'].head? = some c → 'X' = c := fun _ => Option.some.inj
      let s : AtoiText := ⟨[], [], ['X'], by decide, by decide, fun c hc => hhead c hc ▸ by decide,
        fun _ c hc => hhead c hc ▸ by decide⟩
      have hzero : s.number = 0 := by simp [s, AtoiText.number, value]
      exact ⟨'R', s, rfl, by decide, List.cons_ne_nil _ _, Int.le_of_eq hzero.symm,
        by rw [hzero]; decide, .inr (.inl Nat.zero_ne_one)⟩
  constructor
  · exact hadd.mpr ⟨fun h => h.not_taken hexact.taken, fun h => (loose_iff.mp h).2 hexact⟩
  · exact fun h => (hin.mp h).2 hloose

/-- **`ADD R1,R2` is documented and rejected.** -/
theorem glued_comma_rejected :
    ¬ ∀ raw, trim (stripComment raw) ≠ [] →
      (Accepts raw ↔ Documented (trim (stripComment raw))) := by
  intro hall
  have hstranded : StrandedComma "ADD R1,R2".toList :=
    @StrandedComma.mk .opAdd "ADD".toList [' '] "R1".toList [] [] "R2".toList .dst .src
      (by decide) rfl (by decide) (by decide) ⟨1, 'R', .inl rfl, by decide⟩ Gap.nil Gap.nil
      Iff.rfl ⟨2, 'R', .inl rfl, by decide⟩
  have hline : trim (stripComment "ADD R1,R2".toList) = "ADD R1,R2".toList := by decide
  have hne : trim (stripComment "ADD R1,R2".toList) ≠ [] := by decide
  have haccepts := (hall _ hne).mpr (hline ▸ hstranded.documented)
  have htaken := (assembleLine_taken hne 1).mp haccepts
  rw [hline] at htaken
  exact hstranded.not_taken htaken

end RetroVM

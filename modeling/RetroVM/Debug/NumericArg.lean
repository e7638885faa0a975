import RetroVM.Assembler.Operands

/-!
# Numeric arguments (`main.cpp`, `parse_numeric_arg`)

`step`, `back` and `breakpoint` read their argument through one function: it peels a `0x` off the
token and leaves the rest to `strtoull`, which lets a number start with a sign and, in base 16,
with a `0x` of its own, and answers `ULLONG_MAX` for a number that does not fit. A `Spelling` is a
number as `strtoull` lets it be written.

Results:
* `strtoull_text`, `spelling_of_strtoull`: `strtoull` reads to its end what a spelling writes.
* `parseNumericArg_accepts`: what is accepted, and as which value.
* **`parseNumericArg_exact_iff`**: the tokens that are read as documented are all but those with a
  sign, a second prefix, a NUL, or a number too large.
-/

namespace RetroVM

open Numerals

/-! ## `strtoull` -/

/-- Behind the prefix a number in base 16 may have. -/
def skipPrefix (base : Nat) : List Char → List Char
  | '0' :: x :: c :: s =>
    if base = 16 ∧ (x = 'x' ∨ x = 'X') ∧ (digit 16 c).isSome then c :: s else '0' :: x :: c :: s
  | s => s

/-- `std::strtoull(s, &end, base)`, for base 10 and 16 and a `const char*` that shows `s`: the
value, and what `end` points at. -/
def strtoull (base : Nat) (s : List Char) : UInt64 × List Char :=
  let (negative, unsigned) := sign (s.dropWhile isspace)
  let digits := skipPrefix base unsigned
  let (n, rest) := scan base 0 digits
  if rest.length = digits.length then (0, s)
  else if n ≥ 2 ^ 64 then (0xFFFFFFFFFFFFFFFF, rest)
  else if negative then (-UInt64.ofNat n, rest)
  else (UInt64.ofNat n, rest)

/-! ## `parse_numeric_arg` -/

/-- `hex_prefix`. -/
def hexPrefix : List Char → Bool
  | '0' :: x :: _ => x = 'x' || x = 'X'
  | _ => false

/-- `base`. -/
def radix (tok : List Char) : Nat := if hexPrefix tok then 16 else 10

/-- `digits`: what the pointer shows of a text, behind the prefix. -/
def behindPrefix (tok text : List Char) : List Char := text.drop (if hexPrefix tok then 2 else 0)

/-- `parse_numeric_arg`: what it returns, and what it leaves in `out_value`. -/
def parseNumericArg (tok : List Char) (outValue : UInt64) : Bool × UInt64 :=
  if tok = [] then (false, outValue)
  else
    let digits := behindPrefix tok (cStr tok)
    if digits = [] then (false, outValue)
    else
      let (v, rest) := strtoull (radix tok) digits
      if rest.length = digits.length ∨ rest ≠ [] then (false, outValue)
      else (true, v)

/-- A documented numeral and its value. -/
inductive Numeral : List Char → Nat → Prop
  | decimal {ds : List Char} : IsDigits 10 ds → ds ≠ [] → Numeral ds (value 10 0 ds)
  | hex {x : Char} {ds : List Char} :
      x = 'x' ∨ x = 'X' → IsDigits 16 ds → ds ≠ [] → Numeral ('0' :: x :: ds) (value 16 0 ds)

/-- `parse_numeric_arg` does with `tok` what its comment says: it accepts a numeral that fits with
its value, and rejects anything else, `out_value` untouched. -/
def ReadsAsDocumented (tok : List Char) : Prop :=
  ∀ out,
    (∃ n, Numeral tok n ∧ n < 2 ^ 64 ∧ parseNumericArg tok out = (true, UInt64.ofNat n)) ∨
      (¬ ∃ n, Numeral tok n ∧ n < 2 ^ 64) ∧ parseNumericArg tok out = (false, out)

/-! ## Spellings -/

/-- A number as `strtoull` lets it be written. -/
structure Spelling (base : Nat) where
  sgn     : List Char
  pre     : List Char
  digits  : List Char
  sgn_mem : sgn ∈ [[], ['+'], ['-']]
  pre_mem : pre = [] ∨ base = 16 ∧ pre ∈ [['0', 'x'], ['0', 'X']]
  isDigits : IsDigits base digits
  ne_nil  : digits ≠ []

namespace Spelling

variable {base : Nat}

/-- What is written. -/
def text (s : Spelling base) : List Char := s.sgn ++ (s.pre ++ s.digits)

/-- The number the digits stand for. -/
def number (s : Spelling base) : Nat := value base 0 s.digits

/-- What `strtoull` makes of it. -/
def read (s : Spelling base) : UInt64 :=
  if s.number ≥ 2 ^ 64 then 0xFFFFFFFFFFFFFFFF
  else if s.sgn = ['-'] then -UInt64.ofNat s.number
  else UInt64.ofNat s.number

/-- Neither a sign nor a prefix. -/
def Bare (s : Spelling base) : Prop := s.sgn = [] ∧ s.pre = []

theorem text_ne_nil (s : Spelling base) : s.text ≠ [] := by
  intro h
  exact s.ne_nil (List.append_eq_nil_iff.mp (List.append_eq_nil_iff.mp h).2).2

/-- Behind the sign stands a digit. -/
theorem head_body (s : Spelling base) {c : Char} (h : (s.pre ++ s.digits).head? = some c) :
    Plain c := by
  obtain ⟨d, u, hd⟩ := List.exists_cons_of_ne_nil s.ne_nil
  rcases s.pre_mem with hp | ⟨-, hp⟩
  · rw [hp, List.nil_append, hd] at h
    obtain rfl : d = c := Option.some.inj h
    exact plain_of_digit (s.isDigits d (by rw [hd]; exact List.mem_cons_self))
  · -- a prefix starts with a zero
    have hzero : c = '0' := by
      simp only [List.mem_cons, List.not_mem_nil, or_false] at hp
      rcases hp with hp | hp
      · rw [hp] at h
        exact (Option.some.inj h).symm
      · rw [hp] at h
        exact (Option.some.inj h).symm
    rw [hzero]
    exact plain_of_digit (b := 10) (by decide)

/-- A sign and a prefix are no digits: a text of digits is spelled plainly. -/
theorem bare_of_isDigits (s : Spelling base) (h : IsDigits base s.text) :
    s.Bare ∧ s.text = s.digits := by
  have hsgn : s.sgn = [] :=
    sign_eq_nil s.sgn_mem fun c hc => plain_of_digit (h c (List.mem_append_left _ hc))
  have hpre : s.pre = [] := by
    rcases s.pre_mem with hp | ⟨hbase, hp⟩
    · exact hp
    · have hx : ∀ x ∈ s.pre, (digit base x).isSome := fun x hx =>
        h x (List.mem_append_right _ (List.mem_append_left _ hx))
      subst hbase
      simp only [List.mem_cons, List.not_mem_nil, or_false] at hp
      rcases hp with hp | hp
      · exact absurd (hx 'x' (by rw [hp]; decide)) (by decide)
      · exact absurd (hx 'X' (by rw [hp]; decide)) (by decide)
  refine ⟨⟨hsgn, hpre⟩, ?_⟩
  unfold text
  rw [hsgn, hpre]
  rfl

end Spelling

/-! ## `strtoull` reads spellings -/

section Strtoull

variable {base : Nat}

/-- A prefix is taken off where digits follow. -/
theorem skipPrefix_append {pre ds : List Char}
    (hp : pre = [] ∨ base = 16 ∧ pre ∈ [['0', 'x'], ['0', 'X']]) (hds : IsDigits base ds)
    (hne : ds ≠ []) : skipPrefix base (pre ++ ds) = ds := by
  obtain ⟨c, u, rfl⟩ := List.exists_cons_of_ne_nil hne
  rcases hp with rfl | ⟨rfl, hp⟩
  · change skipPrefix base (c :: u) = c :: u
    unfold skipPrefix
    split
    · next x d v heq =>
      rw [heq]
      refine if_neg ?_
      rintro ⟨rfl, rfl | rfl, -⟩
      · exact absurd (hds 'x' (by rw [heq]; simp)) (by decide)
      · exact absurd (hds 'X' (by rw [heq]; simp)) (by decide)
    · rfl
  · simp only [List.mem_cons, List.not_mem_nil, or_false] at hp
    rcases hp with rfl | rfl
    · exact if_pos ⟨rfl, .inl rfl, hds c List.mem_cons_self⟩
    · exact if_pos ⟨rfl, .inr rfl, hds c List.mem_cons_self⟩

/-- What `skipPrefix` takes off is a prefix. -/
theorem skipPrefix_spec (base : Nat) (s : List Char) :
    ∃ pre, (pre = [] ∨ base = 16 ∧ pre ∈ [['0', 'x'], ['0', 'X']]) ∧
      s = pre ++ skipPrefix base s := by
  unfold skipPrefix
  split
  · next x c u =>
    by_cases h : base = 16 ∧ (x = 'x' ∨ x = 'X') ∧ (digit 16 c).isSome
    · rw [if_pos h]
      obtain ⟨hbase, rfl | rfl, -⟩ := h
      · exact ⟨['0', 'x'], .inr ⟨hbase, by decide⟩, rfl⟩
      · exact ⟨['0', 'X'], .inr ⟨hbase, by decide⟩, rfl⟩
    · rw [if_neg h]
      exact ⟨[], .inl rfl, rfl⟩
  · exact ⟨[], .inl rfl, rfl⟩

/-- No spelling starts with a space. -/
theorem Spelling.head_text (s : Spelling base) {c : Char} (h : s.text.head? = some c) :
    isspace c = false := by
  unfold Spelling.text at h
  have hsgn := s.sgn_mem
  simp only [List.mem_cons, List.not_mem_nil, or_false] at hsgn
  rcases hsgn with hs | hs | hs
  · rw [hs] at h
    exact (s.head_body h).1
  · rw [hs] at h
    obtain rfl : '+' = c := Option.some.inj h
    rfl
  · rw [hs] at h
    obtain rfl : '-' = c := Option.some.inj h
    rfl

/-- **`strtoull` reads a spelling to its end.** -/
theorem strtoull_text (s : Spelling base) : strtoull base s.text = (s.read, []) := by
  have hspace : s.text.dropWhile isspace = s.text :=
    Words.dropWhile_run (s := []) (fun _ h => nomatch h) fun c hc => s.head_text hc
  have hsign : sign s.text = (decide (s.sgn = ['-']), s.pre ++ s.digits) :=
    sign_append s.sgn_mem fun _ c hc => (s.head_body hc).2.2.2.2
  have hlen : ¬ ([] : List Char).length = s.digits.length := by
    intro hzero
    exact s.ne_nil (List.length_eq_zero_iff.mp hzero.symm)
  unfold strtoull Spelling.read Spelling.number
  simp only [hspace, hsign, skipPrefix_append s.pre_mem s.isDigits s.ne_nil,
    scan_digits s.isDigits, if_neg hlen, decide_eq_true_eq]
  split
  · rfl
  · split <;> rfl

/-- **Only a spelling is read to its end.** -/
theorem spelling_of_strtoull {t : List Char} (hne : t ≠ [])
    (hw : ∀ c, t.head? = some c → isspace c = false) (h : (strtoull base t).2 = []) :
    ∃ s : Spelling base, t = s.text := by
  have hspace : t.dropWhile isspace = t := Words.dropWhile_run (s := []) (fun _ h => nomatch h) hw
  obtain ⟨sgn, hsgn, u, ht, hsign, -⟩ := sign_spec t
  obtain ⟨pre, hpre, hu⟩ := skipPrefix_spec base u
  obtain ⟨ds, hs, hds, -⟩ := scan_spec (b := base) 0 (skipPrefix base u)
  unfold strtoull at h
  simp only [hspace, hsign] at h
  generalize scan base 0 (skipPrefix base u) = r at h hs
  by_cases hlen : r.2.length = (skipPrefix base u).length
  · rw [if_pos hlen] at h
    exact absurd h hne
  · rw [if_neg hlen] at h
    have hrest : r.2 = [] := by
      split at h
      · exact h
      · split at h <;> exact h
    rw [hrest, List.append_nil] at hs
    refine ⟨⟨sgn, pre, ds, hsgn, hpre, hds, ?_⟩, ?_⟩
    · rintro rfl
      rw [hrest, hs] at hlen
      exact hlen rfl
    · change t = sgn ++ (pre ++ ds)
      rw [← hs, ← hu, ← ht]

end Strtoull

/-! ## What is accepted -/

section Accepted

variable {tok : List Char}

/-- A text of digits is the bare spelling of itself. -/
theorem exists_bare_iff {base n : Nat} {t : List Char} :
    (∃ s : Spelling base, t = s.text ∧ s.Bare ∧ n = s.number) ↔
      IsDigits base t ∧ t ≠ [] ∧ n = value base 0 t := by
  constructor
  · rintro ⟨s, rfl, ⟨hsgn, hpre⟩, rfl⟩
    have htext : s.text = s.digits := by
      unfold Spelling.text
      rw [hsgn, hpre]
      rfl
    rw [htext]
    exact ⟨s.isDigits, s.ne_nil, rfl⟩
  · rintro ⟨hds, hne, rfl⟩
    exact ⟨⟨[], [], t, by decide, .inl rfl, hds, hne⟩, rfl, ⟨rfl, rfl⟩, rfl⟩

/-- A documented numeral is digits behind its prefix. -/
theorem numeral_iff {n : Nat} :
    Numeral tok n ↔ IsDigits (radix tok) (behindPrefix tok tok) ∧ behindPrefix tok tok ≠ [] ∧
      n = value (radix tok) 0 (behindPrefix tok tok) := by
  constructor
  · rintro (⟨hds, hne⟩ | ⟨hx, hds, hne⟩)
    · have hnone : hexPrefix tok = false := by
        unfold hexPrefix
        split
        · next x u =>
          have hdigit := hds x (by simp)
          by_contra hx
          rw [Bool.not_eq_false, Bool.or_eq_true, decide_eq_true_eq, decide_eq_true_eq] at hx
          rcases hx with rfl | rfl
          · exact absurd hdigit (by decide)
          · exact absurd hdigit (by decide)
        · rfl
      unfold radix behindPrefix
      rw [hnone]
      exact ⟨hds, hne, rfl⟩
    · rcases hx with rfl | rfl
      · exact ⟨hds, hne, rfl⟩
      · exact ⟨hds, hne, rfl⟩
  · rintro ⟨hds, hne, rfl⟩
    unfold radix behindPrefix at *
    cases hp : hexPrefix tok with
    | false =>
      rw [hp] at hds hne
      exact .decimal hds hne
    | true =>
      rw [hp] at hds hne
      unfold hexPrefix at hp
      split at hp
      · next x u =>
        rw [Bool.or_eq_true, decide_eq_true_eq, decide_eq_true_eq] at hp
        exact .hex hp hds hne
      · cases hp

theorem Numeral.plain {n : Nat} (h : Numeral tok n) : ∀ c ∈ tok, Plain c := by
  cases h with
  | decimal hds => exact plain_of_digits hds
  | hex hx hds hne => exact (Literal.hex hx hds hne).plain

/-- No documented numeral holds a NUL. -/
theorem Numeral.cStr_eq {n : Nat} (h : Numeral tok n) : cStr tok = tok :=
  List.takeWhile_eq_self_iff.mpr fun c hc => decide_eq_true (h.plain c hc).2.2.2.1

/-- The outcome, all tests of the source in one. -/
theorem parseNumericArg_eq (tok : List Char) (out : UInt64) :
    parseNumericArg tok out =
      if behindPrefix tok (cStr tok) ≠ [] ∧
          (strtoull (radix tok) (behindPrefix tok (cStr tok))).2 = [] then
        (true, (strtoull (radix tok) (behindPrefix tok (cStr tok))).1)
      else (false, out) := by
  unfold parseNumericArg
  by_cases htok : tok = []
  · subst htok
    rfl
  rw [if_neg htok]
  generalize behindPrefix tok (cStr tok) = d
  rcases hr : strtoull (radix tok) d with ⟨v, rest⟩
  simp only [hr]
  by_cases hd : d = []
  · rw [if_pos hd, if_neg fun h => h.1 hd]
  · rw [if_neg hd]
    by_cases hrest : rest = []
    · -- the end of a text that is not empty is not its start
      have hlen : ¬ rest.length = d.length := by
        rw [hrest]
        exact fun h => hd (List.length_eq_zero_iff.mp h.symm)
      rw [if_neg (not_or.mpr ⟨hlen, not_not_intro hrest⟩), if_pos ⟨hd, hrest⟩]
    · rw [if_pos (.inr hrest), if_neg fun h => hrest h.2]

/-- **What is accepted, and as which value**: the spellings, NUL and all behind it cut off. -/
theorem parseNumericArg_accepts (hw : ∀ c ∈ tok, isspace c = false) (out : UInt64) :
    (∀ s : Spelling (radix tok), behindPrefix tok (cStr tok) = s.text →
      parseNumericArg tok out = (true, s.read)) ∧
    ((¬ ∃ s : Spelling (radix tok), behindPrefix tok (cStr tok) = s.text) →
      parseNumericArg tok out = (false, out)) := by
  rw [parseNumericArg_eq]
  refine ⟨fun s hs => ?_, fun hno => if_neg ?_⟩
  · rw [hs, strtoull_text]
    exact if_pos ⟨s.text_ne_nil, rfl⟩
  · rintro ⟨hne, hrest⟩
    refine hno (spelling_of_strtoull hne (fun c hc => hw c ?_) hrest)
    exact List.takeWhile_subset _ (List.mem_of_mem_drop (List.mem_of_mem_head? hc))

/-- **A documented numeral that fits is read with its value.** -/
theorem parseNumericArg_numeral {n : Nat} (h : Numeral tok n) (hn : n < 2 ^ 64) (out : UInt64) :
    parseNumericArg tok out = (true, UInt64.ofNat n) := by
  obtain ⟨s, hs, ⟨hsgn, -⟩, rfl⟩ := exists_bare_iff.mpr (numeral_iff.mp h)
  have hread : s.read = UInt64.ofNat s.number := by
    unfold Spelling.read
    rw [if_neg (Nat.not_le.mpr hn), hsgn]
    rfl
  rw [← hread]
  exact (parseNumericArg_accepts (fun c hc => (h.plain c hc).1) out).1 s (by rw [h.cStr_eq, hs])

/-- Every count has a token. -/
theorem parseNumericArg_toDigits (n out : UInt64) :
    parseNumericArg (Nat.toDigits 10 n.toNat) out = (true, n) := by
  have hnumeral : Numeral (Nat.toDigits 10 n.toNat) n.toNat := by
    have h := Numeral.decimal (isDigits_toDigits (b := 10) (by decide) (by decide) n.toNat)
      Nat.toDigits_ne_nil
    rwa [value_toDigits (by decide) (by decide)] at h
  rw [parseNumericArg_numeral hnumeral n.toNat_lt, UInt64.ofNat_toNat]

end Accepted

/-! ## Exactly the documented numerals, but for these -/

/-- A token is accepted that should not be: up to a NUL it is a number as `strtoull` lets it be
written behind the prefix, with a sign, with a second prefix, with a NUL, or too large. -/
def Misread (tok : List Char) : Prop :=
  ∃ s : Spelling (radix tok), behindPrefix tok (cStr tok) = s.text ∧
    (s.sgn ≠ [] ∨ s.pre ≠ [] ∨ '\x00' ∈ tok ∨ 2 ^ 64 ≤ s.number)

/-- **A token is read as documented iff it is none of these.** -/
theorem parseNumericArg_exact_iff (tok : List Char) (hw : ∀ c ∈ tok, isspace c = false) :
    ReadsAsDocumented tok ↔ ¬ Misread tok := by
  constructor
  · rintro hdoc ⟨s, hs, hbad⟩
    have haccept := (parseNumericArg_accepts hw 0).1 s hs
    rcases hdoc 0 with ⟨n, hn, hlt, -⟩ | ⟨-, hp⟩
    · obtain ⟨hds, -, hval⟩ := numeral_iff.mp hn
      rw [hn.cStr_eq] at hs
      rw [hs] at hds hval
      obtain ⟨⟨hsgn, hpre⟩, htext⟩ := s.bare_of_isDigits hds
      rw [htext] at hval
      rcases hbad with h | h | h | h
      · exact h hsgn
      · exact h hpre
      · have hnul := List.takeWhile_eq_self_iff.mp hn.cStr_eq _ h
        exact absurd hnul (by decide)
      · exact absurd hlt (Nat.not_lt.mpr (hval ▸ h))
    · rw [haccept] at hp
      cases hp
  · intro hno out
    obtain ⟨-, hreject⟩ := parseNumericArg_accepts hw out
    by_cases hdoc : ∃ n, Numeral tok n ∧ n < 2 ^ 64
    · obtain ⟨n, hn, hlt⟩ := hdoc
      exact .inl ⟨n, hn, hlt, parseNumericArg_numeral hn hlt out⟩
    · refine .inr ⟨hdoc, hreject ?_⟩
      rintro ⟨s, hs⟩
      -- a spelling that is none of these is a documented numeral
      have hgood : ¬ (s.sgn ≠ [] ∨ s.pre ≠ [] ∨ '\x00' ∈ tok ∨ 2 ^ 64 ≤ s.number) :=
        fun hbad => hno ⟨s, hs, hbad⟩
      simp only [not_or, not_not, Nat.not_le] at hgood
      obtain ⟨hsgn, hpre, hnul, hlt⟩ := hgood
      have hcstr : cStr tok = tok := List.takeWhile_eq_self_iff.mpr fun c hc =>
        decide_eq_true fun h => hnul (h ▸ hc)
      rw [hcstr] at hs
      exact hdoc ⟨s.number,
        numeral_iff.mpr (exists_bare_iff.mp ⟨s, hs, ⟨hsgn, hpre⟩, rfl⟩), hlt⟩

/-- `-5` is accepted, as `2 ^ 64 - 5`. -/
theorem minus_five_is_accepted :
    (∀ c ∈ ['-', '5'], isspace c = false) ∧
      parseNumericArg ['-', '5'] 0 = (true, 18446744073709551611) ∧
      ¬ ReadsAsDocumented ['-', '5'] := by
  have haccept : parseNumericArg ['-', '5'] 0 = (true, 18446744073709551611) := by decide
  refine ⟨by decide, haccept, fun hdoc => ?_⟩
  rcases hdoc 0 with ⟨n, hn, -, -⟩ | ⟨-, hreject⟩
  · exact absurd (numeral_iff.mp hn).1 (by decide)
  · rw [haccept] at hreject
    cases hreject

/-- `0x1F` is read as documented, `0x0x1F` is not rejected. -/
theorem one_prefix_not_two :
    ReadsAsDocumented ['0', 'x', '1', 'F'] ∧
      ¬ ReadsAsDocumented ['0', 'x', '0', 'x', '1', 'F'] := by
  constructor
  · refine (parseNumericArg_exact_iff _ (by decide)).mpr ?_
    rintro ⟨s, hs, hbad⟩
    have hs' : ['1', 'F'] = s.text := hs
    obtain ⟨⟨hsgn, hpre⟩, htext⟩ := s.bare_of_isDigits (hs' ▸ by decide)
    rcases hbad with h | h | h | h
    · exact h hsgn
    · exact h hpre
    · exact absurd h (by decide)
    · unfold Spelling.number at h
      rw [← htext, ← hs'] at h
      exact absurd h (by decide)
  · intro hdoc
    let twice : Spelling 16 :=
      ⟨[], ['0', 'x'], ['1', 'F'], by decide, .inr ⟨rfl, by decide⟩, by decide, by decide⟩
    exact (parseNumericArg_exact_iff _ (by decide)).mp hdoc
      ⟨twice, rfl, .inr (.inl (List.cons_ne_nil _ _))⟩

end RetroVM

import Mathlib.Data.List.Basic
import Mathlib.Tactic.Common

/-!
# Numerals

The number a string of digits stands for, in any base up to 36, and the scan that reads the
longest string of digits at the front of a text.

Results:
* `scan_append`: a scan stops behind the digits, with their value.
* `scan_spec`: what it has read is digits, with the value it gives.
* `value_toDigits`: the digits of a number have its value.
* `head_toDigits`: only zero starts with a zero.
-/

namespace Numerals

/-- The value of a digit; letters count on from ten, in either case. -/
def digitVal (c : Char) : Option Nat :=
  if '0' ≤ c ∧ c ≤ '9' then some (c.toNat - '0'.toNat)
  else if 'a' ≤ c ∧ c ≤ 'z' then some (c.toNat - 'a'.toNat + 10)
  else if 'A' ≤ c ∧ c ≤ 'Z' then some (c.toNat - 'A'.toNat + 10)
  else none

/-- The value of a digit of base `b`. -/
def digit (b : Nat) (c : Char) : Option Nat := (digitVal c).filter fun d => d < b

-- What is said of the characters of a text is decided over the text, not over all characters.
instance decidableText {s : List Char} {p : Char → Prop} [DecidablePred p] :
    Decidable (∀ c ∈ s, p c) :=
  List.decidableBAll p s

/-- Every character is a digit of base `b`. -/
def IsDigits (b : Nat) (s : List Char) : Prop := ∀ c ∈ s, (digit b c).isSome

instance (b : Nat) (s : List Char) : Decidable (IsDigits b s) :=
  inferInstanceAs (Decidable (∀ c ∈ s, (digit b c).isSome))

/-- The number the digits `s` stand for, behind digits that stand for `acc`. -/
def value (b : Nat) : Nat → List Char → Nat
  | acc, [] => acc
  | acc, c :: s => value b (b * acc + (digit b c).getD 0) s

/-- Read the longest string of digits: its number behind `acc`, and what is left. -/
def scan (b : Nat) : Nat → List Char → Nat × List Char
  | acc, [] => (acc, [])
  | acc, c :: s =>
    match digit b c with
    | some d => scan b (b * acc + d) s
    | none => (acc, c :: s)

variable {b : Nat}

theorem value_append (acc : Nat) (s t : List Char) :
    value b acc (s ++ t) = value b (value b acc s) t := by
  induction s generalizing acc with
  | nil => rfl
  | cons c s ih => exact ih _

/-- **A scan stops behind the digits.** -/
theorem scan_append {s rest : List Char} (hs : IsDigits b s)
    (hrest : ∀ c, rest.head? = some c → digit b c = none) (acc : Nat) :
    scan b acc (s ++ rest) = (value b acc s, rest) := by
  induction s generalizing acc with
  | nil =>
    cases rest with
    | nil => rfl
    | cons c rest =>
      rw [List.nil_append, scan, hrest c rfl]
      rfl
  | cons c s ih =>
    obtain ⟨d, hd⟩ := Option.isSome_iff_exists.mp (hs c List.mem_cons_self)
    rw [List.cons_append, scan, value, hd]
    exact ih (fun c' hc' => hs c' (List.mem_cons_of_mem c hc')) _

/-- A text that is all digits is read to its end. -/
theorem scan_digits {s : List Char} (hs : IsDigits b s) (acc : Nat) :
    scan b acc s = (value b acc s, []) := by
  have h := scan_append hs (fun c (hc : [].head? = some c) => nomatch hc) acc
  rwa [List.append_nil] at h

/-- **What a scan has read** is digits, and they have the number it gives. -/
theorem scan_spec (acc : Nat) (s : List Char) :
    ∃ ds, s = ds ++ (scan b acc s).2 ∧ IsDigits b ds ∧ (scan b acc s).1 = value b acc ds := by
  induction s generalizing acc with
  | nil => exact ⟨[], rfl, (fun _ hc => nomatch hc), rfl⟩
  | cons c s ih =>
    unfold scan
    cases hd : digit b c with
    | none => exact ⟨[], rfl, (fun _ hc => nomatch hc), rfl⟩
    | some d =>
      obtain ⟨ds, hs, hds, hval⟩ := ih (b * acc + d)
      refine ⟨c :: ds, congrArg (c :: ·) hs, fun c' hc' => ?_, ?_⟩
      · rcases List.mem_cons.mp hc' with rfl | hc'
        · rw [hd]
          rfl
        · exact hds c' hc'
      · rw [value, hd]
        exact hval

/-! ## The digits of a number -/

theorem digit_digitChar {d : Nat} (hd : d < b) (hb : b ≤ 16) : digit b d.digitChar = some d := by
  have hval : ∀ d : Fin 16, digitVal (Nat.digitChar d) = some d.val := by decide
  unfold digit
  rw [hval ⟨d, Nat.lt_of_lt_of_le hd hb⟩]
  simpa using hd

/-- A decimal digit is the character of its value. -/
theorem eq_digitChar {c : Char} (h : (digit 10 c).isSome) :
    ∃ d < 10, digit 10 c = some d ∧ c = Nat.digitChar d := by
  obtain ⟨d, hd⟩ := Option.isSome_iff_exists.mp h
  obtain ⟨hval, hlt⟩ : digitVal c = some d ∧ d < 10 := by simpa [digit] using hd
  refine ⟨d, hlt, hd, ?_⟩
  have hchar : ∀ d < 10, Nat.digitChar d = Char.ofNat (48 + d) := by decide
  rw [hchar d hlt, ← Char.ofNat_toNat c]
  congr 1
  unfold digitVal at hval
  split at hval
  · next hc =>
    have hlow : 48 ≤ c.toNat := hc.1
    obtain rfl : c.toNat - 48 = d := Option.some.inj hval
    omega
  · split at hval
    · have := Option.some.inj hval
      omega
    · split at hval
      · have := Option.some.inj hval
        omega
      · cases hval

theorem isDigits_toDigits (hb : 1 < b) (hb16 : b ≤ 16) (n : Nat) :
    IsDigits b (Nat.toDigits b n) := by
  induction n using Nat.strongRecOn with
  | _ n ih =>
    rw [Nat.toDigits_eq_if hb]
    split
    · next hlt =>
      intro c hc
      rw [List.mem_singleton.mp hc, digit_digitChar hlt hb16]
      rfl
    · next hge =>
      intro c hc
      rcases List.mem_append.mp hc with hc | hc
      · exact ih (n / b) (Nat.div_lt_self (by omega) hb) c hc
      · rw [List.mem_singleton.mp hc, digit_digitChar (Nat.mod_lt _ (by omega)) hb16]
        rfl

/-- **The digits of a number have its value.** -/
theorem value_toDigits (hb : 1 < b) (hb16 : b ≤ 16) (n : Nat) :
    value b 0 (Nat.toDigits b n) = n := by
  induction n using Nat.strongRecOn with
  | _ n ih =>
    rw [Nat.toDigits_eq_if hb]
    split
    · next hlt =>
      rw [value, digit_digitChar hlt hb16]
      exact (congrArg (· + n) (Nat.mul_zero b)).trans (Nat.zero_add n)
    · next hge =>
      rw [value_append, ih (n / b) (Nat.div_lt_self (by omega) hb), value,
        digit_digitChar (Nat.mod_lt _ (by omega)) hb16]
      exact Nat.div_add_mod n b

/-- **Only zero starts with a zero.** -/
theorem head_toDigits (hb : 1 < b) (hb16 : b ≤ 16) {n : Nat} (hn : 0 < n) :
    (Nat.toDigits b n).head? ≠ some '0' := by
  induction n using Nat.strongRecOn with
  | _ n ih =>
    rw [Nat.toDigits_eq_if hb]
    split
    · next hlt =>
      intro h
      have hzero : Nat.digitChar n = '0' := Option.some.inj h
      have hd := digit_digitChar hlt hb16
      have hd0 : digit b '0' = some 0 := digit_digitChar (d := 0) (by omega) hb16
      rw [hzero, hd0] at hd
      exact absurd (Option.some.inj hd) (by omega)
    · next hge =>
      have hpos : 0 < n / b := Nat.div_pos (by omega) (by omega)
      rw [List.head?_append_of_ne_nil _ Nat.toDigits_ne_nil]
      exact ih (n / b) (Nat.div_lt_self (by omega) hb) hpos

end Numerals

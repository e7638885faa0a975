import Mathlib.Data.List.DropRight
import Mathlib.Tactic.Common

/-!
# Words of a text

A text is read word by word: `extract` skips what counts as a space and takes the longest run that
does not. `trim` strips spaces from both ends.

Results:
* `trim_append`: what trimming leaves.
* `trim_around`: space around a text is stripped with the rest.
* `extract_append`: the word behind a gap, and what follows it.
* `extract_spec`: how a text is made of its first word and the rest.
* `extract_head`, `extract_behind`: the same where the text starts with a word or behind one.
* `words_append`: the words of a text, taken one after the other.
-/

namespace Words

variable {α : Type} (p : α → Bool)

/-- Strip `p` from both ends. -/
def trim (s : List α) : List α := (s.rdropWhile p).dropWhile p

/-- The first word of a text, and what is left behind it. -/
def extract (s : List α) : List α × List α :=
  ((s.dropWhile p).takeWhile (fun a => !p a), (s.dropWhile p).dropWhile (fun a => !p a))

/-- All of `s` is space. -/
def Gap (s : List α) : Prop := ∀ a ∈ s, p a

instance (s : List α) : Decidable (Gap p s) := inferInstanceAs (Decidable (∀ a ∈ s, p a))

/-- A word: something, and none of it space. -/
structure Word (w : List α) : Prop where
  ne_nil : w ≠ []
  solid  : ∀ a ∈ w, p a = false

/-- What can follow a word: nothing, or space. -/
def Behind (s : List α) : Prop := ∀ a, s.head? = some a → p a

variable {p}

theorem Gap.nil : Gap p [] := fun _ h => nomatch h

theorem Gap.append {s t : List α} (hs : Gap p s) (ht : Gap p t) : Gap p (s ++ t) := by
  intro a ha
  rcases List.mem_append.mp ha with ha | ha
  · exact hs a ha
  · exact ht a ha

theorem Behind.nil : Behind p [] := fun _ h => nomatch h

theorem Behind.of_gap {s t : List α} (hs : Gap p s) (hne : s ≠ []) : Behind p (s ++ t) := by
  intro a ha
  rw [List.head?_append_of_ne_nil _ hne] at ha
  exact hs a (List.mem_of_mem_head? ha)

theorem Word.append {w v : List α} (hw : Word p w) (hv : ∀ a ∈ v, p a = false) :
    Word p (w ++ v) := by
  refine ⟨fun h => hw.ne_nil (List.append_eq_nil_iff.mp h).1, fun a ha => ?_⟩
  rcases List.mem_append.mp ha with ha | ha
  · exact hw.solid a ha
  · exact hv a ha

/-! ## Runs -/

theorem takeWhile_run {q : α → Bool} {s t : List α} (hs : ∀ a ∈ s, q a)
    (ht : ∀ a, t.head? = some a → q a = false) : (s ++ t).takeWhile q = s := by
  rw [List.takeWhile_append_of_pos hs]
  cases t with
  | nil => rw [List.takeWhile_nil, List.append_nil]
  | cons a t => rw [List.takeWhile_cons_of_neg (by rw [ht a rfl]; exact Bool.false_ne_true),
      List.append_nil]

theorem dropWhile_run {q : α → Bool} {s t : List α} (hs : ∀ a ∈ s, q a)
    (ht : ∀ a, t.head? = some a → q a = false) : (s ++ t).dropWhile q = t := by
  rw [List.dropWhile_append_of_pos hs]
  cases t with
  | nil => rfl
  | cons a t => rw [List.dropWhile_cons_of_neg (by rw [ht a rfl]; exact Bool.false_ne_true)]

/-- What a run stops at. -/
theorem head?_dropWhile {q : α → Bool} {s : List α} {a : α}
    (h : (s.dropWhile q).head? = some a) : q a = false := by
  induction s with
  | nil => cases h
  | cons b s ih =>
    by_cases hb : q b
    · rw [List.dropWhile_cons_of_pos hb] at h
      exact ih h
    · rw [List.dropWhile_cons_of_neg hb] at h
      obtain rfl : b = a := Option.some.inj h
      exact Bool.not_eq_true _ ▸ hb

/-! ## Trimming -/

/-- A text that neither starts nor ends in what is stripped is what trimming leaves. -/
theorem trim_append {pre s post : List α} (hpre : Gap p pre) (hpost : Gap p post)
    (hhead : ∀ a, s.head? = some a → p a = false)
    (hlast : ∀ a, s.getLast? = some a → p a = false) : trim p (pre ++ s ++ post) = s := by
  unfold trim
  by_cases hs : s = []
  · have hgap : Gap p (pre ++ s ++ post) := by
      rw [hs, List.append_nil]
      exact hpre.append hpost
    rw [List.rdropWhile_eq_nil_iff.mpr hgap, hs]
    rfl
  · have hlast' : ∀ a, (pre ++ s).reverse.head? = some a → p a = false := by
      intro a ha
      rw [List.head?_reverse, List.getLast?_append_of_ne_nil _ hs] at ha
      exact hlast a ha
    have hright : (pre ++ s ++ post).rdropWhile p = pre ++ s := by
      unfold List.rdropWhile
      rw [List.reverse_append, dropWhile_run (fun a ha => hpost a (List.mem_reverse.mp ha)) hlast',
        List.reverse_reverse]
    rw [hright]
    exact dropWhile_run hpre hhead

/-- What trimming leaves neither starts nor ends in what is stripped. -/
theorem trim_ends (s : List α) :
    (∀ a, (trim p s).head? = some a → p a = false) ∧
      ∀ a, (trim p s).getLast? = some a → p a = false := by
  refine ⟨fun a ha => head?_dropWhile ha, fun a ha => ?_⟩
  -- the last element is there before the front is stripped
  have hsuffix : trim p s <:+ s.rdropWhile p := List.dropWhile_suffix p
  obtain ⟨front, hfront⟩ := hsuffix
  have hne : trim p s ≠ [] := fun h => by
    rw [h] at ha
    cases ha
  have hlast : (s.rdropWhile p).getLast? = some a := by
    rw [← hfront, List.getLast?_append_of_ne_nil _ hne, ha]
  unfold List.rdropWhile at hlast
  rw [List.getLast?_reverse] at hlast
  exact head?_dropWhile hlast

/-- Space around a text is stripped with the rest. -/
theorem trim_around {pre s post : List α} (hpre : Gap p pre) (hpost : Gap p post) :
    trim p (pre ++ s ++ post) = trim p s := by
  have hright : (pre ++ s ++ post).rdropWhile p = (pre ++ s).rdropWhile p := by
    unfold List.rdropWhile
    rw [List.reverse_append,
      List.dropWhile_append_of_pos fun a ha => hpost a (List.mem_reverse.mp ha)]
  unfold trim
  rw [hright]
  by_cases hs : s.rdropWhile p = []
  · have hall : (pre ++ s).rdropWhile p = [] := by
      rw [List.rdropWhile_eq_nil_iff] at hs ⊢
      exact fun a ha => (List.mem_append.mp ha).elim (hpre a) (hs a)
    rw [hall, hs]
  · have hleft : (pre ++ s).rdropWhile p = pre ++ s.rdropWhile p := by
      unfold List.rdropWhile at hs ⊢
      rw [List.reverse_append, List.dropWhile_append, if_neg, List.reverse_append,
        List.reverse_reverse]
      rwa [List.isEmpty_iff, ← List.reverse_eq_nil_iff]
    rw [hleft, List.dropWhile_append_of_pos hpre]

/-- What is stripped anyway may be stripped from the end first. -/
theorem trim_rdropWhile {q : α → Bool} (h : ∀ a, q a → p a) (s : List α) :
    trim p (s.rdropWhile q) = trim p s := by
  have hsplit : s = s.rdropWhile q ++ s.rtakeWhile q := by
    unfold List.rdropWhile List.rtakeWhile
    rw [← List.reverse_append, List.takeWhile_append_dropWhile, List.reverse_reverse]
  have hgap : Gap p (s.rtakeWhile q) := fun a ha => h a (List.mem_rtakeWhile_imp ha)
  have haround := trim_around (s := s.rdropWhile q) Gap.nil hgap
  rw [List.nil_append, ← hsplit] at haround
  exact haround.symm

/-! ## Words -/

/-- **The word behind a gap**, and what follows it. -/
theorem extract_append {gap w rest : List α} (hgap : Gap p gap) (hw : Word p w)
    (hrest : Behind p rest) : extract p (gap ++ (w ++ rest)) = (w, rest) := by
  have hhead : ∀ a, (w ++ rest).head? = some a → p a = false := by
    intro a ha
    rw [List.head?_append_of_ne_nil _ hw.ne_nil] at ha
    exact hw.solid a (List.mem_of_mem_head? ha)
  have hsolid : ∀ a ∈ w, (!p a) = true := fun a ha => by rw [hw.solid a ha]; rfl
  have hstop : ∀ a, rest.head? = some a → (!p a) = false := fun a ha => by rw [hrest a ha]; rfl
  unfold extract
  rw [dropWhile_run hgap hhead, takeWhile_run hsolid hstop, dropWhile_run hsolid hstop]

/-- The word a text starts with. -/
theorem extract_word {w rest : List α} (hw : Word p w) (hrest : Behind p rest) :
    extract p (w ++ rest) = (w, rest) := extract_append Gap.nil hw hrest

/-- The word a text ends in. -/
theorem extract_last {gap w : List α} (hgap : Gap p gap) (hw : Word p w) :
    extract p (gap ++ w) = (w, []) := by
  have h := extract_append hgap hw Behind.nil
  rwa [List.append_nil] at h

/-- Behind the last word there is none. -/
theorem extract_gap {gap : List α} (hgap : Gap p gap) : extract p gap = ([], []) := by
  unfold extract
  rw [List.dropWhile_eq_nil_iff.mpr hgap]
  rfl

/-- **A text is a gap, its first word and the rest**, or all of it is space. -/
theorem extract_spec (s : List α) :
    (Gap p s ∧ extract p s = ([], [])) ∨
      ∃ gap, Gap p gap ∧ Word p (extract p s).1 ∧ Behind p (extract p s).2 ∧
        s = gap ++ ((extract p s).1 ++ (extract p s).2) := by
  by_cases hs : Gap p s
  · exact .inl ⟨hs, extract_gap hs⟩
  · refine .inr ⟨s.takeWhile p, fun a ha => List.mem_takeWhile_imp ha, ⟨?_, fun a ha => ?_⟩,
      fun a ha => ?_, ?_⟩
    · intro hnil
      have hne : s.dropWhile p ≠ [] := fun h => hs (List.dropWhile_eq_nil_iff.mp h)
      obtain ⟨a, t, hat⟩ := List.exists_cons_of_ne_nil hne
      have ha : p a = false := head?_dropWhile (by rw [hat]; rfl)
      have hw : (s.dropWhile p).takeWhile (fun a => !p a) = [] := hnil
      rw [hat, List.takeWhile_cons_of_pos (by rw [ha]; rfl)] at hw
      cases hw
    · have hkept := List.mem_takeWhile_imp ha
      exact Bool.not_eq_eq_eq_not.mp hkept
    · have hstop := head?_dropWhile ha
      exact Bool.not_eq_eq_eq_not.mp hstop
    · unfold extract
      rw [List.takeWhile_append_dropWhile, List.takeWhile_append_dropWhile]

/-- Where no word is extracted there is only space. -/
theorem gap_of_extract_nil {s : List α} (h : (extract p s).1 = []) : Gap p s := by
  rcases extract_spec (p := p) s with ⟨hs, -⟩ | ⟨-, -, hw, -⟩
  · exact hs
  · exact absurd h hw.ne_nil

/-- A text that starts with no space starts with its first word. -/
theorem extract_head {s : List α} (hhead : ∀ a, s.head? = some a → p a = false)
    (hne : (extract p s).1 ≠ []) :
    Word p (extract p s).1 ∧ Behind p (extract p s).2 ∧
      s = (extract p s).1 ++ (extract p s).2 := by
  rcases extract_spec (p := p) s with ⟨-, hs⟩ | ⟨gap, hgap, hw, hrest, hs⟩
  · exact absurd (congrArg Prod.fst hs) hne
  · cases gap with
    | nil => exact ⟨hw, hrest, hs⟩
    | cons a gap =>
      have ha := hhead a (by rw [hs]; rfl)
      rw [hgap a List.mem_cons_self] at ha
      cases ha

/-- Behind a word the next one comes after a space. -/
theorem extract_behind {s : List α} (hs : Behind p s) (hne : (extract p s).1 ≠ []) :
    ∃ gap, Gap p gap ∧ gap ≠ [] ∧ Word p (extract p s).1 ∧ Behind p (extract p s).2 ∧
      s = gap ++ ((extract p s).1 ++ (extract p s).2) := by
  rcases extract_spec (p := p) s with ⟨-, hnone⟩ | ⟨gap, hgap, hw, hrest, heq⟩
  · exact absurd (congrArg Prod.fst hnone) hne
  · refine ⟨gap, hgap, ?_, hw, hrest, heq⟩
    rintro rfl
    obtain ⟨a, w, haw⟩ := List.exists_cons_of_ne_nil hw.ne_nil
    have hspace : p a := hs a (by rw [heq, haw]; rfl)
    rw [hw.solid a (by rw [haw]; exact List.mem_cons_self)] at hspace
    cases hspace

/-- A text that ends in no space has no gap at its end. -/
theorem gap_eq_nil {front s : List α} (hlast : ∀ a, (front ++ s).getLast? = some a → p a = false)
    (hs : Gap p s) : s = [] := by
  by_contra hne
  have hend := hlast (s.getLast hne) (by
    rw [List.getLast?_append_of_ne_nil _ hne, List.getLast?_eq_some_getLast hne])
  rw [hs _ (List.getLast_mem hne)] at hend
  cases hend

/-! ## All words -/

/-- Take words off the front, at most `n` of them, until there is none. -/
def wordsWithin (p : α → Bool) : Nat → List α → List (List α)
  | 0, _ => []
  | n + 1, s =>
    if (extract p s).1.isEmpty then []
    else (extract p s).1 :: wordsWithin p n (extract p s).2

/-- The words of a text. There are at most as many as it has characters. -/
def words (p : α → Bool) (s : List α) : List (List α) := wordsWithin p s.length s

/-- A word taken off leaves a shorter text. -/
theorem length_extract {s : List α} (h : (extract p s).1 ≠ []) :
    (extract p s).2.length < s.length := by
  rcases extract_spec (p := p) s with ⟨-, hnone⟩ | ⟨gap, -, hw, -, hs⟩
  · exact absurd (congrArg Prod.fst hnone) h
  · have hpos := List.length_pos_iff.mpr hw.ne_nil
    have hlen := congrArg List.length hs
    rw [List.length_append, List.length_append] at hlen
    omega

/-- More than enough is enough. -/
theorem wordsWithin_eq {n : Nat} {s : List α} (h : s.length ≤ n) :
    wordsWithin p n s = words p s := by
  induction hn : s.length using Nat.strongRecOn generalizing n s with
  | _ k ih =>
    subst hn
    unfold words
    by_cases hnone : (extract p s).1 = []
    · cases n <;> cases hs : s.length <;> simp [wordsWithin, hnone]
    · have hlt := length_extract hnone
      obtain ⟨n, rfl⟩ : ∃ n', n = n' + 1 := ⟨n - 1, by omega⟩
      obtain ⟨k, hk⟩ : ∃ k, s.length = k + 1 := ⟨s.length - 1, by omega⟩
      rw [hk, wordsWithin, wordsWithin, ih _ hlt (by omega) rfl, ih _ hlt (by omega) rfl]

theorem words_gap {s : List α} (h : Gap p s) : words p s = [] := by
  unfold words
  cases s.length with
  | zero => rfl
  | succ n => simp [wordsWithin, extract_gap h]

/-- **The first word and the words behind it.** -/
theorem words_append {gap w rest : List α} (hgap : Gap p gap) (hw : Word p w)
    (hrest : Behind p rest) : words p (gap ++ (w ++ rest)) = w :: words p rest := by
  have hext := extract_append hgap hw hrest
  have hpos := List.length_pos_iff.mpr hw.ne_nil
  unfold words
  obtain ⟨n, hn⟩ : ∃ n, (gap ++ (w ++ rest)).length = n + 1 :=
    ⟨(gap ++ (w ++ rest)).length - 1, by simp; omega⟩
  have hlen : rest.length ≤ n := by
    simp only [List.length_append] at hn
    omega
  rw [hn, wordsWithin, hext]
  simp only [List.isEmpty_iff, if_neg hw.ne_nil]
  rw [wordsWithin_eq hlen]
  rfl

/-- The word a text is. -/
theorem words_word {w : List α} (hw : Word p w) : words p w = [w] := by
  have h := words_append Gap.nil hw Behind.nil
  rwa [List.nil_append, List.append_nil, words_gap Gap.nil] at h

/-- A text of two words or more. -/
theorem words_cons {w gap rest : List α} (hw : Word p w) (hgap : Gap p gap) (hne : gap ≠ []) :
    words p (w ++ (gap ++ rest)) = w :: words p (gap ++ rest) :=
  words_append Gap.nil hw (Behind.of_gap hgap hne)

end Words

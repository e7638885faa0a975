import Mathlib.Data.List.Chain
import Mathlib.Data.Set.Defs

/-!
# Undo logs and chains of checkpoints

A log is a list of entries, newest last, and `undo` takes one entry back. A checkpoint carries the
log of what happened since the checkpoint before it. Checkpoints are `Linked` when that log rolls
the later state back to the earlier one; along a chain of linked checkpoints the logs, newest
first, roll any state back to any earlier one.

Results:
* `rollback_push`, `rollback_merge`: what an entry added to a log, or merged into its newest entry,
  has to satisfy for the log to still lead back to where it led.
* **`unwind_chain`**: the logs of a chain of linked checkpoints undo it.
* `unwind_chain_stateAt`: so they do from the state the chain starts in.
* `PutsBack.unwind`: what is put back does not depend on what was there.
-/

namespace UndoLog

variable {δ μ κ : Type}

/-! ## One log -/

section Rollback

variable (undo : δ → μ → μ)

/-- Undo a whole log, newest entry first. -/
def rollback (log : List δ) (m : μ) : μ := log.foldr undo m

@[simp] theorem rollback_nil (m : μ) : rollback undo [] m = m := rfl

theorem rollback_append (log more : List δ) (m : μ) :
    rollback undo (log ++ more) m = rollback undo log (rollback undo more m) :=
  List.foldr_append

/-- The loop over a log in reverse is `rollback`. -/
theorem foldl_reverse_eq_rollback (log : List δ) (m : μ) :
    log.reverse.foldl (fun m d => undo d m) m = rollback undo log m :=
  List.foldl_reverse

variable {undo}

/-- An entry that undoes a change may be logged with it. -/
theorem rollback_push {log : List δ} {d : δ} {m m' : μ} (h : undo d m' = m) :
    rollback undo (log ++ [d]) m' = rollback undo log m := by
  rw [rollback_append]
  exact congrArg _ h

/-- The newest entry may stand for a further change if it takes back both. -/
theorem rollback_merge {log : List δ} {d d' : δ} {m m' : μ} (h : undo d' m' = undo d m) :
    rollback undo (log ++ [d']) m' = rollback undo (log ++ [d]) m := by
  rw [rollback_append, rollback_append]
  exact congrArg _ h

end Rollback

/-! ## Chains of checkpoints -/

section Chain

variable (undo : δ → μ → μ) (log : κ → List δ) (state : κ → μ)

/-- `b` was taken after `a`, and its log leads back to it. -/
def Linked (a b : κ) : Prop := rollback undo (log b) (state b) = state a

/-- Undo the logs of a list of checkpoints, newest checkpoint first. -/
def unwind (cps : List κ) (m : μ) : μ := cps.foldr (fun c m => rollback undo (log c) m) m

/-- The two nested reverse loops are `unwind`. -/
theorem foldl_reverse_eq_unwind (cps : List κ) (m : μ) :
    cps.reverse.foldl (fun m c => (log c).reverse.foldl (fun m d => undo d m) m) m =
      unwind undo log cps m := by
  unfold unwind
  rw [List.foldl_reverse]
  simp only [foldl_reverse_eq_rollback]

/-- **Unwinding.** Along a chain the checkpoints after `a` roll the last state back to `a`'s. -/
theorem unwind_chain {a : κ} {cps : List κ} (h : (a :: cps).IsChain (Linked undo log state)) :
    unwind undo log cps (state ((a :: cps).getLast (List.cons_ne_nil a cps))) = state a := by
  induction cps generalizing a with
  | nil => rfl
  | cons b cps ih =>
    obtain ⟨hab, hb⟩ := List.isChain_cons_cons.mp h
    rw [List.getLast_cons (List.cons_ne_nil b cps)]
    change rollback undo (log b) (unwind undo log cps _) = _
    rw [ih hb]
    exact hab

/-- Unwinding the last checkpoint of a chain to any earlier one. -/
theorem unwind_chain_drop {cps : List κ} (h : cps.IsChain (Linked undo log state)) {i : Nat}
    (hi : i < cps.length) :
    unwind undo log (cps.drop (i + 1))
      (state (cps.getLast (List.ne_nil_of_length_pos (by omega)))) = state cps[i] := by
  have hcons := List.drop_eq_getElem_cons hi
  have hchain := h.drop i
  rw [hcons] at hchain
  rw [← unwind_chain undo log state hchain]
  congr 2
  simp only [← hcons]
  exact (List.getLast_drop (by simpa using hi)).symm

/-- Unwinding the last checkpoint of a chain to the one `n` before it. -/
theorem unwind_chain_back {cps : List κ} (h : cps.IsChain (Linked undo log state)) {n : Nat}
    (hn : n < cps.length) {c last : κ} (hc : cps[cps.length - 1 - n]? = some c)
    (hlast : cps.getLast? = some last) :
    unwind undo log (cps.drop (cps.length - n)) (state last) = state c := by
  obtain ⟨hi, rfl⟩ := List.getElem?_eq_some_iff.mp hc
  have hchain := unwind_chain_drop undo log state h hi
  rw [show cps.length - 1 - n + 1 = cps.length - n by omega] at hchain
  rw [← hchain]
  congr 2
  rw [List.getLast?_eq_some_getLast (List.ne_nil_of_length_pos (by omega))] at hlast
  exact (Option.some.inj hlast).symm

/-- Unwinding any checkpoint of a chain to any earlier one. -/
theorem unwind_chain_getElem {cps : List κ} (h : cps.IsChain (Linked undo log state)) {i j : Nat}
    (hij : i ≤ j) (hj : j < cps.length) :
    unwind undo log ((cps.take (j + 1)).drop (i + 1)) (state cps[j]) = state cps[i] := by
  have hi : i < (cps.take (j + 1)).length := by
    rw [List.length_take]
    omega
  have hlast := unwind_chain_drop undo log state (h.take (j + 1)) hi
  rw [List.getElem_take] at hlast
  rw [← hlast]
  congr 2
  rw [List.getLast_take, List.getElem?_eq_getElem (by omega)]
  rfl

/-- The state at the `n`-th checkpoint, `base` being the one before the first. -/
def stateAt (base : μ) (cps : List κ) : Nat → μ
  | 0 => base
  | n + 1 => (cps[n]?.map state).getD base

/-- Unwinding any checkpoint of a chain to any earlier one, or to where it began. -/
theorem unwind_chain_stateAt {base : μ} {cps : List κ} (h : cps.IsChain (Linked undo log state))
    (hfirst : ∀ c ∈ cps.head?, rollback undo (log c) (state c) = base) {i j : Nat} (hij : i ≤ j)
    (hj : j ≤ cps.length) :
    unwind undo log ((cps.take j).drop i) (stateAt state base cps j) =
      stateAt state base cps i := by
  have hat : ∀ n (hn : n < cps.length), stateAt state base cps (n + 1) = state cps[n] := by
    intro n hn
    change (cps[n]?.map state).getD base = _
    rw [List.getElem?_eq_getElem hn]
    rfl
  cases j with
  | zero =>
    obtain rfl := Nat.le_zero.mp hij
    rfl
  | succ j =>
    rw [hat j hj]
    cases i with
    | succ i =>
      rw [hat i (by omega)]
      exact unwind_chain_getElem undo log state h (by omega) hj
    | zero =>
      -- the first checkpoint is undone after the others
      cases cps with
      | nil => cases hj
      | cons c cps =>
        have hrest := unwind_chain_getElem undo log state h (Nat.zero_le j) hj
        change unwind undo log (cps.take j) _ = state c at hrest
        change rollback undo (log c) (unwind undo log (cps.take j) _) = base
        rw [hrest]
        exact hfirst c rfl

end Chain

/-! ## What a log puts back -/

section PutsBack

variable {α β : Type} {undo : δ → (α → β) → α → β} {writes : δ → Set α}

/-- An entry puts back the cells it `writes`, whatever they were, and leaves the others alone. -/
structure PutsBack (undo : δ → (α → β) → α → β) (writes : δ → Set α) : Prop where
  back  : ∀ d m m' a, a ∈ writes d → undo d m a = undo d m' a
  frame : ∀ d m a, a ∉ writes d → undo d m a = m a

/-- Two states are rolled back to the same in every cell they agree in or the log puts back. -/
theorem PutsBack.rollback (h : PutsBack undo writes) {log : List δ} {m m' : α → β} {a : α}
    (ha : m a = m' a ∨ ∃ d ∈ log, a ∈ writes d) :
    rollback undo log m a = rollback undo log m' a := by
  induction log with
  | nil => exact ha.resolve_right fun ⟨_, hd, _⟩ => nomatch hd
  | cons d log ih =>
    change undo d _ a = undo d _ a
    by_cases hd : a ∈ writes d
    · exact h.back d _ _ a hd
    · rw [h.frame d _ a hd, h.frame d _ a hd]
      refine ih (ha.imp_right ?_)
      rintro ⟨d', hd', ha'⟩
      rcases List.mem_cons.mp hd' with rfl | hd'
      · exact absurd ha' hd
      · exact ⟨d', hd', ha'⟩

/-- **So they are by the logs of a list of checkpoints.** -/
theorem PutsBack.unwind (h : PutsBack undo writes) {log : κ → List δ} {cps : List κ}
    {m m' : α → β} {a : α} (ha : m a = m' a ∨ ∃ c ∈ cps, ∃ d ∈ log c, a ∈ writes d) :
    unwind undo log cps m a = unwind undo log cps m' a := by
  induction cps with
  | nil => exact ha.resolve_right fun ⟨_, hc, _⟩ => nomatch hc
  | cons c cps ih =>
    by_cases hc : ∃ d ∈ log c, a ∈ writes d
    · exact h.rollback (.inr hc)
    · refine h.rollback (.inl (ih (ha.imp_right ?_)))
      rintro ⟨c', hc', ha'⟩
      rcases List.mem_cons.mp hc' with rfl | hc'
      · exact absurd ha' hc
      · exact ⟨c', hc', ha'⟩

end PutsBack

end UndoLog

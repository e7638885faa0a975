import Mathlib.Tactic.Common

/-!
# Loops that leave with a result

A loop is a step function `σ → Except ρ σ`: one turn either goes on with a new state (`ok`) or
leaves the loop with a result (`error`). Nothing makes such a loop end, so what a loop does is
said turn by turn (`after`), and that it ends is the proposition `Leaves`; `exec` is the same
loop with fuel, for evaluation.

Results:
* `Leaves.unique`: a loop leaves with at most one result, however much fuel it is given.
* `after_invariant`, `leaves_invariant`: what one turn preserves, every turn has.
* `Leaves.last_in`: the last turn of a phase.
* `after_countdown`: a counted loop inside the loop.
* `after_matched`, `leaves_of_matched`: two loops whose turns match stay matched, and one leaves
  iff the other does.
* `after_before`, `after_pausing`, `leaves_pausing`, `leaves_of_pausing`: a loop that follows
  another one by turns until it pauses.
* `after_upto`, `upto_of_leaves`, `leaves_upto`: a loop that refines another one until that one
  gives up.
-/

namespace StepLoop

variable {σ τ ρ κ : Type}

/-- The loop after `n` turns from `s`: still going, or left on one of them. -/
def after (step : σ → Except ρ σ) : Nat → σ → Except ρ σ
  | 0, s => .ok s
  | n + 1, s =>
    match step s with
    | .ok s' => after step n s'
    | .error r => .error r

/-- The loop entered at `s` leaves with `r`. -/
def Leaves (step : σ → Except ρ σ) (s : σ) (r : ρ) : Prop := ∃ n, after step n s = .error r

/-- The loop entered at `s`, given up after `fuel` turns. -/
def exec (step : σ → Except ρ σ) (fuel : Nat) (s : σ) : Option ρ :=
  match after step fuel s with
  | .ok _ => none
  | .error r => some r

/-! ## Turns -/

section Turns

variable {step : σ → Except ρ σ}

@[simp] theorem after_zero (s : σ) : after step 0 s = .ok s := rfl

theorem after_succ_ok {s s' : σ} (h : step s = .ok s') (n : Nat) :
    after step (n + 1) s = after step n s' := by
  simp only [after, h]

theorem after_succ_error {s : σ} {r : ρ} (h : step s = .error r) (n : Nat) :
    after step (n + 1) s = .error r := by
  simp only [after, h]

theorem after_one (s : σ) : after step 1 s = step s := by
  cases h : step s with
  | ok s' => rw [after_succ_ok h, after_zero]
  | error r => rw [after_succ_error h]

/-- A run that is still going after `n` turns goes on from there. -/
theorem after_add_ok {n : Nat} {s s' : σ} (h : after step n s = .ok s') (k : Nat) :
    after step (n + k) s = after step k s' := by
  induction n generalizing s with
  | zero =>
    obtain rfl : s = s' := by simpa using h
    rw [Nat.zero_add]
  | succ n ih =>
    rw [Nat.succ_add]
    cases hs : step s with
    | ok u =>
      rw [after_succ_ok hs] at h ⊢
      exact ih h
    | error r =>
      rw [after_succ_error hs] at h
      cases h

/-- A run that has left has left at every later count too. -/
theorem after_add_error {n : Nat} {s : σ} {r : ρ} (h : after step n s = .error r) (k : Nat) :
    after step (n + k) s = .error r := by
  induction n generalizing s with
  | zero => cases h
  | succ n ih =>
    rw [Nat.succ_add]
    cases hs : step s with
    | ok u =>
      rw [after_succ_ok hs] at h ⊢
      exact ih h
    | error r' =>
      rw [after_succ_error hs] at h ⊢
      exact h

/-- The last turn taken. -/
theorem after_succ_right {n : Nat} {s s' : σ} (h : after step n s = .ok s') :
    after step (n + 1) s = step s' := by
  rw [after_add_ok h, after_one]

/-- A run still going after `n + 1` turns was going after `n`. -/
theorem after_ok_pred {n : Nat} {s s' : σ} (h : after step (n + 1) s = .ok s') :
    ∃ u, after step n s = .ok u ∧ step u = .ok s' := by
  cases hn : after step n s with
  | ok u => exact ⟨u, rfl, by rw [← after_succ_right hn, h]⟩
  | error r =>
    rw [after_add_error hn 1] at h
    cases h

/-- A run still going after `n` turns was going at every count before. -/
theorem after_ok_of_le {n k : Nat} {s s' : σ} (h : after step n s = .ok s') (hk : k ≤ n) :
    ∃ u, after step k s = .ok u ∧ after step (n - k) u = .ok s' := by
  obtain ⟨d, rfl⟩ := Nat.exists_eq_add_of_le hk
  cases hu : after step k s with
  | ok u =>
    rw [after_add_ok hu] at h
    exact ⟨u, rfl, by rw [Nat.add_sub_cancel_left, h]⟩
  | error r =>
    rw [after_add_error hu d] at h
    cases h

/-- The turn on which a run left. -/
theorem after_error_last {n : Nat} {s : σ} {r : ρ} (h : after step n s = .error r) :
    ∃ k u, k < n ∧ after step k s = .ok u ∧ step u = .error r := by
  induction n with
  | zero => cases h
  | succ n ih =>
    cases hn : after step n s with
    | ok u => exact ⟨n, u, Nat.lt_succ_self n, hn, by rw [← after_succ_right hn, h]⟩
    | error r' =>
      obtain rfl : r' = r := by
        have := after_add_error hn 1
        rw [h] at this
        exact (Except.error.inj this).symm
      obtain ⟨k, u, hk, hu⟩ := ih hn
      exact ⟨k, u, Nat.lt_succ_of_lt hk, hu⟩

/-- **A loop leaves with one result.** -/
theorem Leaves.unique {s : σ} {r r' : ρ} (h : Leaves step s r) (h' : Leaves step s r') :
    r = r' := by
  obtain ⟨n, hn⟩ := h
  obtain ⟨k, hk⟩ := h'
  have e1 := after_add_error hn k
  have e2 := after_add_error hk n
  rw [Nat.add_comm, e2] at e1
  exact (Except.error.inj e1).symm

theorem Leaves.of_step {s : σ} {r : ρ} (h : step s = .error r) : Leaves step s r :=
  ⟨1, by rw [after_one, h]⟩

theorem Leaves.of_after {n : Nat} {s s' : σ} {r : ρ} (hn : after step n s = .ok s')
    (h : Leaves step s' r) : Leaves step s r := by
  obtain ⟨k, hk⟩ := h
  exact ⟨n + k, by rw [after_add_ok hn, hk]⟩

theorem Leaves.rest {n : Nat} {s s' : σ} {r : ρ} (hn : after step n s = .ok s')
    (h : Leaves step s r) : Leaves step s' r := by
  obtain ⟨k, hk⟩ := h
  refine ⟨k, ?_⟩
  rw [← after_add_ok hn, Nat.add_comm]
  exact after_add_error hk n

theorem Leaves.of_step_ok {s s' : σ} {r : ρ} (hs : step s = .ok s') (h : Leaves step s' r) :
    Leaves step s r :=
  Leaves.of_after (n := 1) (by rw [after_one, hs]) h

/-- The turn on which the loop left. -/
theorem Leaves.last {s : σ} {r : ρ} (h : Leaves step s r) :
    ∃ k u, after step k s = .ok u ∧ step u = .error r := by
  obtain ⟨n, hn⟩ := h
  obtain ⟨k, u, -, hu, hr⟩ := after_error_last hn
  exact ⟨k, u, hu, hr⟩

theorem exec_eq_some_iff {fuel : Nat} {s : σ} {r : ρ} :
    exec step fuel s = some r ↔ after step fuel s = .error r := by
  unfold exec
  cases after step fuel s <;> simp

/-- **The fuel only decides whether there is a result, never which.** -/
theorem leaves_iff_exec {s : σ} {r : ρ} : Leaves step s r ↔ ∃ fuel, exec step fuel s = some r :=
  exists_congr fun _ => exec_eq_some_iff.symm

/-- What is made of the result does not depend on the fuel either. -/
theorem exec_map_unique {α : Type} {g : ρ → α} {fuel fuel' : Nat} {s : σ} {a a' : α}
    (h : (exec step fuel s).map g = some a) (h' : (exec step fuel' s).map g = some a') :
    a = a' := by
  obtain ⟨r, hr, rfl⟩ := Option.map_eq_some_iff.mp h
  obtain ⟨r', hr', rfl⟩ := Option.map_eq_some_iff.mp h'
  rw [Leaves.unique (leaves_iff_exec.mpr ⟨fuel, hr⟩) (leaves_iff_exec.mpr ⟨fuel', hr'⟩)]

end Turns

/-! ## Invariants -/

section Invariants

variable {step : σ → Except ρ σ} {I : σ → Prop} {Q : ρ → Prop}

/-- **Run rule.** What every turn preserves holds after any number of turns. -/
theorem after_invariant (hI : ∀ s s', I s → step s = .ok s' → I s') {n : Nat} {s s' : σ}
    (h0 : I s) (h : after step n s = .ok s') : I s' := by
  induction n generalizing s' with
  | zero =>
    obtain rfl : s = s' := by simpa using h
    exact h0
  | succ n ih =>
    obtain ⟨u, hu, hs⟩ := after_ok_pred h
    exact hI u s' (ih hu) hs

/-- **Exit rule.** An invariant of the turns that the last turn turns into `Q` gives `Q` of the
result. -/
theorem leaves_invariant (hI : ∀ s s', I s → step s = .ok s' → I s')
    (hQ : ∀ s r, I s → step s = .error r → Q r) {s : σ} {r : ρ} (h0 : I s)
    (h : Leaves step s r) : Q r := by
  obtain ⟨k, u, hu, hr⟩ := h.last
  exact hQ u r (after_invariant hI h0 hu) hr

/-- **Counted loop.** `c` turns count `P` down by one; a loop that starts in `P k` comes to `P 0`
after `k` rounds of them. -/
theorem after_countdown {P : Nat → σ → Prop} {c : Nat}
    (hround : ∀ k s, P (k + 1) s → ∃ s', after step c s = .ok s' ∧ P k s') (k : Nat) {s : σ}
    (h : P k s) : ∃ s', after step (k * c) s = .ok s' ∧ P 0 s' := by
  induction k generalizing s with
  | zero => exact ⟨s, by rw [Nat.zero_mul, after_zero], h⟩
  | succ k ih =>
    obtain ⟨u, hu, hP⟩ := hround k s h
    obtain ⟨s', hs', h0⟩ := ih hP
    refine ⟨s', ?_, h0⟩
    rw [Nat.succ_mul, Nat.add_comm, after_add_ok hu, hs']

/-- **Last turn of a phase.** A loop that starts in `P` leaves `P` on some turn, or leaves the loop
first. -/
theorem Leaves.last_in {P : σ → Prop} {s : σ} {r : ρ} (h : Leaves step s r) (h0 : P s) :
    ∃ n u, after step n s = .ok u ∧ P u ∧
      ((∃ u', step u = .ok u' ∧ ¬ P u') ∨ step u = .error r) := by
  obtain ⟨n, hn⟩ := h
  induction n generalizing s with
  | zero => cases hn
  | succ n ih =>
    cases hs : step s with
    | ok s' =>
      rw [after_succ_ok hs] at hn
      by_cases h' : P s'
      · obtain ⟨k, u, hu, hPu, hlast⟩ := ih h' hn
        exact ⟨k + 1, u, by rw [after_succ_ok hs, hu], hPu, hlast⟩
      · exact ⟨0, s, rfl, h0, .inl ⟨s', hs, h'⟩⟩
    | error r' =>
      rw [after_succ_error hs] at hn
      cases hn
      exact ⟨0, s, rfl, h0, .inr hs⟩

end Invariants

/-! ## Two loops side by side -/

/-- Two turns end alike: both go on in related states, or both leave with related results. -/
inductive Matched (R : σ → τ → Prop) (Q : ρ → κ → Prop) : Except ρ σ → Except κ τ → Prop
  | ok {s : σ} {t : τ} (h : R s t) : Matched R Q (.ok s) (.ok t)
  | error {r : ρ} {k : κ} (h : Q r k) : Matched R Q (.error r) (.error k)

section TwoLoops

variable {f : σ → Except ρ σ} {g : τ → Except κ τ} {R : σ → τ → Prop} {Q : ρ → κ → Prop}

/-- What is known of the two turns may be used to strengthen how they end. -/
theorem Matched.imp {R' : σ → τ → Prop} {Q' : ρ → κ → Prop} {x : Except ρ σ} {y : Except κ τ}
    (h : Matched R Q x y) (hR : ∀ s t, x = .ok s → y = .ok t → R s t → R' s t)
    (hQ : ∀ r k, x = .error r → y = .error k → Q r k → Q' r k) : Matched R' Q' x y := by
  cases h with
  | ok h => exact .ok (hR _ _ rfl rfl h)
  | error h => exact .error (hQ _ _ rfl rfl h)

section Inversion

variable {s : σ} {t : τ} {r : ρ} {k : κ} {x : Except ρ σ} {y : Except κ τ}

theorem Matched.of_ok (h : Matched R Q (.ok s) y) : ∃ t, y = .ok t ∧ R s t := by
  cases h with
  | ok h => exact ⟨_, rfl, h⟩

theorem Matched.of_error (h : Matched R Q (.error r) y) : ∃ k, y = .error k ∧ Q r k := by
  cases h with
  | error h => exact ⟨_, rfl, h⟩

theorem Matched.ok_of (h : Matched R Q x (.ok t)) : ∃ s, x = .ok s ∧ R s t := by
  cases h with
  | ok h => exact ⟨_, rfl, h⟩

theorem Matched.error_of (h : Matched R Q x (.error k)) : ∃ r, x = .error r ∧ Q r k := by
  cases h with
  | error h => exact ⟨_, rfl, h⟩

end Inversion

theorem Matched.symm {x : Except ρ σ} {y : Except κ τ} (h : Matched R Q x y) :
    Matched (fun t s => R s t) (fun k r => Q r k) y x := by
  cases h with
  | ok h => exact .ok h
  | error h => exact .error h

/-- **Lock step.** Loops whose turns match are matched after any number of turns. -/
theorem after_matched (hstep : ∀ s t, R s t → Matched R Q (f s) (g t)) (n : Nat) {s : σ} {t : τ}
    (h : R s t) : Matched R Q (after f n s) (after g n t) := by
  induction n generalizing s t with
  | zero => exact .ok h
  | succ n ih =>
    have hm := hstep s t h
    cases hf : f s with
    | ok s' =>
      rw [hf] at hm
      obtain ⟨t', hg, h'⟩ := hm.of_ok
      rw [after_succ_ok hf, after_succ_ok hg]
      exact ih h'
    | error r =>
      rw [hf] at hm
      obtain ⟨k, hg, hq⟩ := hm.of_error
      rw [after_succ_error hf, after_succ_error hg]
      exact .error hq

/-- **One of two matched loops leaves only with a result the other leaves with.** -/
theorem leaves_of_matched (hstep : ∀ s t, R s t → Matched R Q (f s) (g t)) {s : σ} {t : τ} {r : ρ}
    (h : R s t) (hl : Leaves f s r) : ∃ k, Leaves g t k ∧ Q r k := by
  obtain ⟨n, hn⟩ := hl
  have hm := after_matched hstep n h
  rw [hn] at hm
  obtain ⟨k, hk, hq⟩ := hm.of_error
  exact ⟨k, ⟨n, hk⟩, hq⟩

/-! ## Following a loop until a pause -/

/-- No state met on the first `n` turns from `t` is in `P`. -/
def Before (P : τ → Prop) (g : τ → Except κ τ) (t : τ) (n : Nat) : Prop :=
  ∀ j u, j < n → after g j t = .ok u → ¬ P u

variable {P : τ → Prop}

theorem Before.mono {t : τ} {n k : Nat} (h : Before P g t n) (hk : k ≤ n) : Before P g t k :=
  fun j u hj hu => h j u (Nat.lt_of_lt_of_le hj hk) hu

theorem Before.succ {t t' : τ} {n : Nat} (h : Before P g t n) (hn : after g n t = .ok t')
    (ht : ¬ P t') : Before P g t (n + 1) := by
  intro j u hj hu
  rcases Nat.lt_succ_iff_lt_or_eq.mp hj with hlt | rfl
  · exact h j u hlt hu
  · obtain rfl : u = t' := Except.ok.inj (hu.symm.trans hn)
    exact ht

/-- **Following.** A loop that matches `g` turn by turn except on turns in `P` is, before the first
of them, where `g` is. -/
theorem after_before (hstep : ∀ s t, R s t → ¬ P t → Matched R Q (f s) (g t)) {s : σ} {t t' : τ}
    {n : Nat} (h : R s t) (hn : after g n t = .ok t') (hb : Before P g t n) :
    ∃ s', after f n s = .ok s' ∧ R s' t' := by
  induction n generalizing t' with
  | zero =>
    obtain rfl : t = t' := by simpa using hn
    exact ⟨s, rfl, h⟩
  | succ n ih =>
    obtain ⟨u, hu, hg⟩ := after_ok_pred hn
    obtain ⟨v, hv, hR⟩ := ih hu (hb.mono (Nat.le_succ n))
    have hm := hstep v u hR (hb n u (Nat.lt_succ_self n) hu)
    rw [hg] at hm
    rw [after_succ_right hv]
    exact hm.ok_of

/-- A loop that follows `g` up to the first turn in `P`, and leaves on it, has followed `g` for as
long as it goes on. -/
theorem after_pausing (hstep : ∀ s t, R s t → ¬ P t → Matched R Q (f s) (g t))
    (hpause : ∀ s t, R s t → P t → ∃ r, f s = .error r) {s s' : σ} {t : τ} {n : Nat} (h : R s t)
    (hn : after f n s = .ok s') :
    ∃ t', after g n t = .ok t' ∧ R s' t' ∧ Before P g t n := by
  induction n generalizing s' with
  | zero =>
    obtain rfl : s = s' := by simpa using hn
    exact ⟨t, rfl, h, fun j u hj => absurd hj (Nat.not_lt_zero j)⟩
  | succ n ih =>
    obtain ⟨v, hv, hf⟩ := after_ok_pred hn
    obtain ⟨w, hw, hR, hb⟩ := ih hv
    have hnot : ¬ P w := by
      intro hP
      obtain ⟨r, hr⟩ := hpause v w hR hP
      cases hf.symm.trans hr
    have hm := hstep v w hR hnot
    rw [hf] at hm
    obtain ⟨w', hg, h'⟩ := hm.of_ok
    exact ⟨w', (after_succ_right hw).trans hg, h', hb.succ hw hnot⟩

/-- **Pausing.** Such a loop leaves either on the turn `g` does or on the first turn in `P` that `g`
comes to. -/
theorem leaves_pausing {Z : ρ → τ → Prop}
    (hstep : ∀ s t, R s t → ¬ P t → Matched R Q (f s) (g t))
    (hpause : ∀ s t, R s t → P t → ∃ r, f s = .error r ∧ Z r t) {s : σ} {t : τ} {r : ρ}
    (h : R s t) (hl : Leaves f s r) :
    ∃ n s' t', after f n s = .ok s' ∧ f s' = .error r ∧ after g n t = .ok t' ∧ R s' t' ∧
      Before P g t n ∧ ((P t' ∧ Z r t') ∨ ¬ P t' ∧ ∃ k, g t' = .error k ∧ Q r k) := by
  obtain ⟨n, u, hu, hr⟩ := hl.last
  obtain ⟨w, hw, hR, hb⟩ := after_pausing hstep
    (fun s t hs ht => (hpause s t hs ht).imp fun _ hr => hr.1) h hu
  refine ⟨n, u, w, hu, hr, hw, hR, hb, ?_⟩
  by_cases hP : P w
  · obtain ⟨r', hr', hZ⟩ := hpause u w hR hP
    obtain rfl : r' = r := Except.error.inj (hr'.symm.trans hr)
    exact .inl ⟨hP, hZ⟩
  · have hm := hstep u w hR hP
    rw [hr] at hm
    exact .inr ⟨hP, hm.of_error⟩

/-- Such a loop leaves if `g` does. -/
theorem leaves_of_pausing {Z : ρ → τ → Prop}
    (hstep : ∀ s t, R s t → ¬ P t → Matched R Q (f s) (g t))
    (hpause : ∀ s t, R s t → P t → ∃ r, f s = .error r ∧ Z r t) {s : σ} {t : τ} {k : κ}
    (h : R s t) (hl : Leaves g t k) : ∃ r, Leaves f s r := by
  obtain ⟨n, hn⟩ := hl
  induction n generalizing s t with
  | zero => cases hn
  | succ n ih =>
    by_cases hP : P t
    · obtain ⟨r, hr, -⟩ := hpause s t h hP
      exact ⟨r, .of_step hr⟩
    · have hm := hstep s t h hP
      cases hf : f s with
      | ok s' =>
        rw [hf] at hm
        obtain ⟨t', hg, h'⟩ := hm.of_ok
        rw [after_succ_ok hg] at hn
        obtain ⟨r, hr⟩ := ih h' hn
        exact ⟨r, hr.of_step_ok hf⟩
      | error r => exact ⟨r, .of_step hf⟩

/-! ## Refinement until the specification gives up -/

/-- Two turns end alike, or the second gives up: it leaves with a result in `U`, and nothing is
asked of the first. -/
inductive Upto (R : σ → τ → Prop) (Q : ρ → κ → Prop) (U : κ → Prop) :
    Except ρ σ → Except κ τ → Prop
  | matched {x : Except ρ σ} {y : Except κ τ} (h : Matched R Q x y) : Upto R Q U x y
  | gaveUp {x : Except ρ σ} {k : κ} (h : U k) : Upto R Q U x (.error k)

variable {U : κ → Prop}

theorem Upto.of_ok {x : Except ρ σ} {t : τ} (h : Upto R Q U x (.ok t)) :
    ∃ s, x = .ok s ∧ R s t := by
  cases h with
  | matched h => exact h.ok_of

theorem Upto.of_error {x : Except ρ σ} {k : κ} (h : Upto R Q U x (.error k)) :
    U k ∨ ∃ r, x = .error r ∧ Q r k := by
  cases h with
  | matched h => exact .inr h.error_of
  | gaveUp h => exact .inl h

/-- A turn matched with one that is refined. -/
theorem Matched.trans_upto {σ' ρ' : Type} {S : σ' → σ → Prop} {P : ρ' → ρ → Prop}
    {T : σ' → τ → Prop} {V : ρ' → κ → Prop} {x : Except ρ' σ'} {y : Except ρ σ} {z : Except κ τ}
    (h : Matched S P x y) (h' : Upto R Q U y z) (hT : ∀ s' s t, S s' s → R s t → T s' t)
    (hV : ∀ r' r k, P r' r → Q r k → V r' k) : Upto T V U x z := by
  cases h' with
  | gaveUp h' => exact .gaveUp h'
  | matched h' =>
    cases h with
    | ok h =>
      obtain ⟨t, rfl, ht⟩ := h'.of_ok
      exact .matched (.ok (hT _ _ _ h ht))
    | error h =>
      obtain ⟨k, rfl, hk⟩ := h'.of_error
      exact .matched (.error (hV _ _ _ h hk))

/-- **Refinement.** Turns that end alike or are given up on do so after any number of them. -/
theorem after_upto (hstep : ∀ s t, R s t → Upto R Q U (f s) (g t)) (n : Nat) {s : σ} {t : τ}
    (h : R s t) : Upto R Q U (after f n s) (after g n t) := by
  induction n generalizing s t with
  | zero => exact .matched (.ok h)
  | succ n ih =>
    have hm := hstep s t h
    cases hg : g t with
    | ok t' =>
      rw [hg] at hm
      obtain ⟨s', hf, h'⟩ := hm.of_ok
      rw [after_succ_ok hf, after_succ_ok hg]
      exact ih h'
    | error k =>
      rw [hg] at hm
      rw [after_succ_error hg]
      rcases hm.of_error with hU | ⟨r, hf, hq⟩
      · exact .gaveUp hU
      · rw [after_succ_error hf]
        exact .matched (.error hq)

/-- Where the loop leaves, so does the specification. -/
theorem leaves_upto (hstep : ∀ s t, R s t → Upto R Q U (f s) (g t)) {s : σ} {t : τ} {r : ρ}
    (h : R s t) (hl : Leaves f s r) : ∃ k, Leaves g t k ∧ (U k ∨ Q r k) := by
  obtain ⟨n, hn⟩ := hl
  have hm := after_upto hstep n h
  cases hg : after g n t with
  | ok t' =>
    rw [hg, hn] at hm
    obtain ⟨s', hs', -⟩ := hm.of_ok
    cases hs'
  | error k =>
    rw [hg, hn] at hm
    refine ⟨k, ⟨n, hg⟩, hm.of_error.imp_right ?_⟩
    rintro ⟨r', hr, hq⟩
    cases hr
    exact hq

end TwoLoops

end StepLoop

import Mathlib.Data.Set.Lattice
import Mathlib.Order.CompletePartialOrder

/-!
# Footprints

A store is a partial map from places to contents. An action looks at some of its places, its
`reads`, and nowhere else; it returns a result and what it writes, or does not return. Nothing is
ever removed.

A log is a run of actions, each with what it returned. Runs of two logs that keep to places of
their own can be interleaved in any order: every action returns what it returned before.

Results:
* `Runs.frame`, `Runs.kept`: what a run leaves as it was.
* **`Runs.interleave`**: runs that keep apart do not see each other.
-/

namespace Footprint

variable {ι β ρ J : Type}

/-- A store. -/
abbrev Store (ι β : Type) := ι → Option β

/-- Nothing written. -/
def nothing : Store ι β := fun _ => none

/-- The store `s` with `w` written over it. -/
def overlay (w s : Store ι β) : Store ι β := fun i => (w i).or (s i)

theorem overlay_of_none {w s : Store ι β} {i : ι} (h : w i = none) : overlay w s i = s i := by
  unfold overlay
  rw [h, Option.none_or]

@[simp] theorem overlay_nothing (s : Store ι β) : overlay nothing s = s := rfl

/-- An action that looks at no place but its `reads`. -/
structure Action (ι β ρ : Type) where
  reads    : Set ι
  effect   : Store ι β → Option (ρ × Store ι β)
  confined : ∀ s t, (∀ i ∈ reads, s i = t i) → effect s = effect t

namespace Action

variable (a : Action ι β ρ)

/-- What `a` returns on `s`, and the store it leaves. -/
def run (s : Store ι β) : Option (ρ × Store ι β) :=
  (a.effect s).map fun e => (e.1, overlay e.2 s)

/-- The places `a` writes when run on `s`. -/
def writes (s : Store ι β) : Set ι := {i | ∃ r w, a.effect s = some (r, w) ∧ (w i).isSome}

variable {a} {s t s' : Store ι β} {r : ρ}

theorem run_eq_some_iff : a.run s = some (r, s') ↔
    ∃ w, a.effect s = some (r, w) ∧ overlay w s = s' := by
  unfold run
  constructor
  · intro h
    obtain ⟨⟨r', w⟩, hw, he⟩ := Option.map_eq_some_iff.mp h
    obtain ⟨rfl, rfl⟩ := Prod.mk.inj he
    exact ⟨w, hw, rfl⟩
  · rintro ⟨w, hw, rfl⟩
    rw [hw]
    rfl

/-- **Frame rule**: a place that is not written is as it was. -/
theorem run_frame (h : a.run s = some (r, s')) {i : ι} (hi : i ∉ a.writes s) : s' i = s i := by
  obtain ⟨w, hw, rfl⟩ := run_eq_some_iff.mp h
  refine overlay_of_none ?_
  by_contra hne
  exact hi ⟨r, w, hw, Option.isSome_iff_ne_none.mpr hne⟩

theorem writes_congr (hst : ∀ i ∈ a.reads, s i = t i) : a.writes s = a.writes t := by
  unfold writes
  rw [a.confined s t hst]

/-- **Locality**: on a store that agrees where `a` reads it returns the same, and what agreed before
agrees after. -/
theorem run_congr (hst : ∀ i ∈ a.reads, s i = t i) (h : a.run s = some (r, s')) :
    ∃ t', a.run t = some (r, t') ∧ ∀ i, s i = t i → s' i = t' i := by
  obtain ⟨w, hw, rfl⟩ := run_eq_some_iff.mp h
  refine ⟨overlay w t, run_eq_some_iff.mpr ⟨w, (a.confined s t hst).symm.trans hw, rfl⟩, ?_⟩
  intro i hi
  unfold overlay
  rw [hi]

end Action

/-! ## Runs -/

/-- The log runs from one store to the other, `Q` holding of each action where it starts. -/
inductive Runs (act : J → Action ι β ρ) (Q : J → Store ι β → Prop) :
    List (J × ρ) → Store ι β → Store ι β → Prop
  | nil (s : Store ι β) : Runs act Q [] s s
  | cons {j : J} {r : ρ} {log : List (J × ρ)} {s u s' : Store ι β} : Q j s →
      (act j).run s = some (r, u) → Runs act Q log u s' → Runs act Q ((j, r) :: log) s s'

namespace Runs

variable {act : J → Action ι β ρ} {Q Q' : J → Store ι β → Prop} {log : List (J × ρ)}
  {s s' : Store ι β}

theorem mono (hQ : ∀ j s, Q j s → Q' j s) (h : Runs act Q log s s') : Runs act Q' log s s' := by
  induction h with
  | nil s => exact .nil s
  | cons hq hrun _ ih => exact .cons (hQ _ _ hq) hrun ih

/-- **Invariant rule.** -/
theorem invariant {I : Store ι β → Prop}
    (hI : ∀ j s r s', Q j s → (act j).run s = some (r, s') → I s → I s')
    (h : Runs act Q log s s') (h0 : I s) : I s' := by
  induction h with
  | nil => exact h0
  | cons hq hrun _ ih => exact ih (hI _ _ _ _ hq hrun h0)

/-- **What no action of the run writes is as it was.** -/
theorem frame {i : ι} (hQ : ∀ j s, Q j s → i ∉ (act j).writes s) (h : Runs act Q log s s') :
    s' i = s i :=
  h.invariant (I := fun u => u i = s i)
    (fun j _ _ _ hq hrun hu => (Action.run_frame hrun (hQ j _ hq)).trans hu) rfl

/-- **Nothing is lost.** -/
theorem kept {i : ι} (h : Runs act Q log s s') (hi : (s i).isSome) : (s' i).isSome := by
  refine h.invariant (I := fun u => (u i).isSome) (fun j u r u' _ hrun hu => ?_) hi
  obtain ⟨w, -, rfl⟩ := Action.run_eq_some_iff.mp hrun
  unfold overlay
  cases hw : w i with
  | none => exact hu
  | some b => rfl

end Runs

/-! ## Interleaving -/

/-- The third list is the first two, interleaved. -/
inductive Interleaving {α : Type} : List α → List α → List α → Prop
  | nil : Interleaving [] [] []
  | left {a : α} {xs ys zs : List α} : Interleaving xs ys zs → Interleaving (a :: xs) ys (a :: zs)
  | right {a : α} {xs ys zs : List α} : Interleaving xs ys zs → Interleaving xs (a :: ys) (a :: zs)

/-- The action keeps to the places in `P`. -/
def Within (act : J → Action ι β ρ) (P : Set ι) (j : J) (s : Store ι β) : Prop :=
  (act j).reads ⊆ P ∧ (act j).writes s ⊆ P

section Interleave

variable {act : J → Action ι β ρ} {P P' : Set ι}

/-- An action that keeps to `P`, run on a store that agrees there. -/
theorem run_within {j : J} {s t s' : Store ι β} {r : ρ} (hj : Within act P j s)
    (hst : ∀ i ∈ P, s i = t i) (h : (act j).run s = some (r, s')) :
    ∃ t', (act j).run t = some (r, t') ∧ (∀ i ∈ P, s' i = t' i) ∧ ∀ i ∉ P, t' i = t i := by
  have hreads : ∀ i ∈ (act j).reads, s i = t i := fun i hi => hst i (hj.1 hi)
  obtain ⟨t', ht', hagree⟩ := Action.run_congr hreads h
  refine ⟨t', ht', fun i hi => hagree i (hst i hi), fun i hi => ?_⟩
  refine Action.run_frame ht' fun hw => hi (hj.2 ?_)
  rwa [Action.writes_congr hreads]

/-- **Runs that keep apart do not see each other.** Take a run that keeps to `P` and one, from a
store of its own, that keeps to `P'`. Interleaved in any order, on a store that agrees with either
on its places, every action returns what it returned alone, and leaves what it left alone. -/
theorem Runs.interleave (hdisj : Disjoint P P') {log log' logs : List (J × ρ)}
    (hlogs : Interleaving log log' logs) {s s' t t' u : Store ι β}
    (h : Runs act (Within act P) log s s') (h' : Runs act (Within act P') log' t t')
    (hs : ∀ i ∈ P, s i = u i) (ht : ∀ i ∈ P', t i = u i) :
    ∃ u', Runs act (fun _ _ => True) logs u u' ∧ (∀ i ∈ P, s' i = u' i) ∧
      (∀ i ∈ P', t' i = u' i) ∧ ∀ i, i ∉ P → i ∉ P' → u' i = u i := by
  induction hlogs generalizing s t u with
  | nil =>
    cases h
    cases h'
    exact ⟨u, .nil u, hs, ht, fun _ _ _ => rfl⟩
  | left _ ih =>
    obtain _ | ⟨hj, hrun, hrest⟩ := h
    obtain ⟨v, hv, hagree, hframe⟩ := run_within hj hs hrun
    have htv : ∀ i ∈ P', t i = v i := fun i hi =>
      (ht i hi).trans (hframe i fun hP => Set.disjoint_left.mp hdisj hP hi).symm
    obtain ⟨u', hruns, hP, hP', hother⟩ := ih hrest h' hagree htv
    exact ⟨u', .cons trivial hv hruns, hP, hP',
      fun i hi hi' => (hother i hi hi').trans (hframe i hi)⟩
  | right _ ih =>
    obtain _ | ⟨hj, hrun, hrest⟩ := h'
    obtain ⟨v, hv, hagree, hframe⟩ := run_within hj ht hrun
    have hsv : ∀ i ∈ P, s i = v i := fun i hi =>
      (hs i hi).trans (hframe i (Set.disjoint_left.mp hdisj hi)).symm
    obtain ⟨u', hruns, hP, hP', hother⟩ := ih h hrest hsv hagree
    exact ⟨u', .cons trivial hv hruns, hP, hP',
      fun i hi hi' => (hother i hi hi').trans (hframe i hi')⟩

end Interleave

end Footprint

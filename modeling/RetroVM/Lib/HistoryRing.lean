import Mathlib.Data.List.Infix

/-!
# Bounded histories

A timeline is a list of entries, oldest first, that grows at its end and is cut back at its end. A
`History` remembers the newest entries of a timeline: the slots up to `index`. Cutting back moves
the index only, so the slots past it are entries of a future that was given up; the next push drops
them. A push beyond the capacity drops the oldest slot instead.

Results:
* `Holds.push`, `Holds.back`: the history follows the timeline through both.
* `Holds.get`, `Holds.since`: what it remembers is what the timeline holds.
-/

namespace HistoryRing

variable {α : Type}

/-- Slots, oldest first, and the index of the current one. -/
structure History (α : Type) where
  slots : List α
  index : Nat

/-- Push an entry after the current one. -/
def History.push (cap : Nat) (h : History α) (a : α) : History α :=
  let slots := h.slots.take (h.index + 1) ++ [a]
  if cap < slots.length then ⟨slots.tail, h.index⟩ else ⟨slots, h.index + 1⟩

/-- Go back `n` entries. -/
def History.back (h : History α) (n : Nat) : History α := ⟨h.slots, h.index - n⟩

/-- The history remembers the newest entries of `timeline`. -/
structure Holds (cap : Nat) (h : History α) (timeline : List α) : Prop where
  inside  : h.index < h.slots.length
  bounded : h.slots.length ≤ cap
  recent  : h.slots.take (h.index + 1) <:+ timeline

section Holds

variable {cap : Nat} {h : History α} {timeline : List α}

theorem Holds.length_recent (hh : Holds cap h timeline) :
    (h.slots.take (h.index + 1)).length = h.index + 1 := by
  rw [List.length_take, Nat.min_eq_left hh.inside]

/-- There are at least as many entries as slots up to the index. -/
theorem Holds.index_lt (hh : Holds cap h timeline) : h.index < timeline.length := by
  have := hh.recent.length_le
  rw [hh.length_recent] at this
  exact this

theorem Holds.singleton (hcap : 0 < cap) (a : α) : Holds cap ⟨[a], 0⟩ [a] where
  inside := Nat.zero_lt_one
  bounded := hcap
  recent := List.suffix_rfl

/-- **A push follows the timeline**, whether it drops a given-up future, evicts or neither. -/
theorem Holds.push (hh : Holds cap h timeline) (a : α) :
    Holds cap (h.push cap a) (timeline ++ [a]) := by
  have hlen : (h.slots.take (h.index + 1) ++ [a]).length = h.index + 2 := by
    rw [List.length_append, hh.length_recent, List.length_singleton]
  have hsuffix : h.slots.take (h.index + 1) ++ [a] <:+ timeline ++ [a] := by
    obtain ⟨older, hold⟩ := hh.recent
    exact ⟨older, by rw [← List.append_assoc, hold]⟩
  have hinside := hh.inside
  have hbounded := hh.bounded
  unfold History.push
  by_cases hfull : cap < (h.slots.take (h.index + 1) ++ [a]).length
  · have htail : (h.slots.take (h.index + 1) ++ [a]).tail.length = h.index + 1 := by
      rw [List.length_tail, hlen]
      rfl
    simp only [if_pos hfull]
    refine ⟨?_, ?_, ?_⟩
    · change h.index < _
      rw [htail]
      omega
    · change (h.slots.take (h.index + 1) ++ [a]).tail.length ≤ cap
      rw [htail]
      omega
    · change (h.slots.take (h.index + 1) ++ [a]).tail.take (h.index + 1) <:+ _
      rw [List.take_of_length_le (Nat.le_of_eq htail)]
      exact (List.tail_suffix _).trans hsuffix
  · simp only [if_neg hfull]
    refine ⟨?_, Nat.le_of_not_lt hfull, ?_⟩
    · change h.index + 1 < (h.slots.take (h.index + 1) ++ [a]).length
      rw [hlen]
      omega
    · change (h.slots.take (h.index + 1) ++ [a]).take (h.index + 2) <:+ _
      rw [List.take_of_length_le (Nat.le_of_eq hlen)]
      exact hsuffix

/-- **Going back follows the timeline.** -/
theorem Holds.back (hh : Holds cap h timeline) {n : Nat} (hn : n ≤ h.index) :
    Holds cap (h.back n) (timeline.take (timeline.length - n)) := by
  have hinside := hh.inside
  refine ⟨?_, hh.bounded, ?_⟩
  · change h.index - n < h.slots.length
    omega
  · obtain ⟨older, hold⟩ := hh.recent
    have hlen : timeline.length = older.length + (h.index + 1) := by
      rw [← hold, List.length_append, hh.length_recent]
    refine ⟨older, ?_⟩
    change older ++ h.slots.take (h.index - n + 1) = _
    rw [hlen, ← hold, show older.length + (h.index + 1) - n = older.length + (h.index + 1 - n) by
      omega, List.take_length_add_append, List.take_take]
    congr 2
    omega

/-- The entry `n` from the end is the last of the timeline cut back by `n`. -/
theorem getLast?_take_back {n : Nat} (hn : n < timeline.length) {a : α}
    (ha : timeline[timeline.length - 1 - n]? = some a) :
    (timeline.take (timeline.length - n)).getLast? = some a := by
  rw [List.getLast?_eq_getElem?, List.length_take, Nat.min_eq_left (Nat.sub_le _ n),
    List.getElem?_take_of_lt (by omega),
    show timeline.length - n - 1 = timeline.length - 1 - n by omega]
  exact ha

/-- Slots past the index are not remembered. -/
theorem Holds.cut (hh : Holds cap h timeline) {slots : List α} (hlen : slots.length ≤ cap)
    (hslots : slots.take (h.index + 1) = h.slots.take (h.index + 1)) :
    Holds cap ⟨slots, h.index⟩ timeline := by
  refine ⟨?_, hlen, ?_⟩
  · have hlen := congrArg List.length hslots
    rw [hh.length_recent, List.length_take] at hlen
    change h.index < slots.length
    omega
  · change slots.take (h.index + 1) <:+ timeline
    rw [hslots]
    exact hh.recent

/-- The slot `n` entries back holds the entry `n` from the end. -/
theorem Holds.get (hh : Holds cap h timeline) {n : Nat} (hn : n ≤ h.index) :
    h.slots[h.index - n]? = timeline[timeline.length - 1 - n]? := by
  obtain ⟨older, hold⟩ := hh.recent
  have hlen : timeline.length = older.length + (h.index + 1) := by
    rw [← hold, List.length_append, hh.length_recent]
  rw [hlen, ← hold, List.getElem?_append_right (by omega), List.getElem?_take_of_lt (by omega)]
  congr 1
  omega

/-- The slots after the one `n` entries back are the last `n` entries. -/
theorem Holds.since (hh : Holds cap h timeline) {n : Nat} (hn : n ≤ h.index) :
    (h.slots.take (h.index + 1)).drop (h.index - n + 1) = timeline.drop (timeline.length - n) := by
  obtain ⟨older, hold⟩ := hh.recent
  have hlen : timeline.length = older.length + (h.index + 1) := by
    rw [← hold, List.length_append, hh.length_recent]
  rw [hlen, show older.length + (h.index + 1) - n = older.length + (h.index - n + 1) by omega]
  conv_rhs => rw [← hold, List.drop_length_add_append]

end Holds

end HistoryRing

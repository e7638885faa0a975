import Mathlib.Data.List.Basic

/-!
# Fixed-width records

A file of records is the concatenation of encodings that are all `w` long. The `i`-th record then
starts at offset `w * i`, and the file determines the records if each encoding determines its own.

Results:
* `drop_flatMap`: random access.
* `flatMap_injective`: the file determines the records.
-/

namespace Records

variable {α β : Type} {enc : α → List β} {w : Nat}

theorem length_flatMap (h : ∀ a, (enc a).length = w) (l : List α) :
    (l.flatMap enc).length = w * l.length := by
  induction l with
  | nil => rfl
  | cons a l ih =>
    rw [List.flatMap_cons, List.length_append, ih, h, List.length_cons, Nat.mul_succ, Nat.add_comm]

/-- The file from the `i`-th record on is the file of the records from there on. -/
theorem drop_flatMap (h : ∀ a, (enc a).length = w) (l : List α) (i : Nat) :
    (l.flatMap enc).drop (w * i) = (l.drop i).flatMap enc := by
  induction l generalizing i with
  | nil => simp
  | cons a l ih =>
    cases i with
    | zero => rfl
    | succ i =>
      rw [List.flatMap_cons, List.drop_succ_cons, ← ih i, Nat.mul_succ, Nat.add_comm,
        ← List.drop_drop, List.drop_left' (h a)]

/-- **The file determines the records.** -/
theorem flatMap_injective (h : ∀ a, (enc a).length = w) (hw : 0 < w)
    (henc : Function.Injective enc) : Function.Injective fun l : List α => l.flatMap enc := by
  intro l l' heq
  simp only at heq
  induction l generalizing l' with
  | nil =>
    cases l' with
    | nil => rfl
    | cons a l' =>
      have hlen := congrArg List.length heq
      rw [length_flatMap h, length_flatMap h, List.length_nil, List.length_cons, Nat.mul_succ]
        at hlen
      omega
  | cons a l ih =>
    cases l' with
    | nil =>
      have hlen := congrArg List.length heq
      rw [length_flatMap h, length_flatMap h, List.length_nil, List.length_cons, Nat.mul_succ]
        at hlen
      omega
    | cons a' l' =>
      rw [List.flatMap_cons, List.flatMap_cons] at heq
      obtain ⟨hhead, htail⟩ := List.append_inj heq ((h a).trans (h a').symm)
      rw [henc hhead, ih htail]

end Records

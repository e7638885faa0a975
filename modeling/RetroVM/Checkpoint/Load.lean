import RetroVM.Checkpoint.Format

/-!
# Loading into the caller's state (`checkpoint.cpp`, `checkpoint_load`)

`checkpoint_load` reads header and body into locals and assigns to `out` once both were read and
checked. A file is the bytes behind the stream position; `none` is one that cannot be opened.

Results:
* `checkpointLoadInto_eq`: the function with its `out` parameter is `checkpointLoad`.
* `checkpointLoad_header`: whatever is accepted starts as every saved file does.
* **`checkpoint_codec_exact`**.
-/

namespace RetroVM

/-- `read_all`: the bytes read and what is left of the stream; `none` on a short read. -/
def readAll (f : List UInt8) (n : Nat) : Option (List UInt8 × List UInt8) :=
  if f.length < n then none else some (f.take n, f.drop n)

/-- `checkpoint_load`: its result, and `out` once it returns. -/
def checkpointLoadInto (file : Option (List UInt8)) (out : CheckpointState) :
    Bool × CheckpointState :=
  match file with
  | none => (false, out)
  | some f =>
    match readAll f 16 with
    | none => (false, out)
    | some (hdr, f) =>
      match readAll f 48 with
      | none => (false, out)
      | some (body, _) =>
        if hdr.take 8 ≠ checkpointMagic then (false, out)
        else if wordAt hdr 8 ≠ 1 then (false, out)
        else
          (true, { out with
            frameIndex := wordAt hdr 12
            halted := wordAt body 0
            flags := wordAt body 4
            regs := Vector.ofFn fun i => wordAt body (8 + 4 * i.val)
            pc := wordAt body 40
            sp := wordAt body 44 })

theorem readAll_short {f : List UInt8} {n : Nat} (h : f.length < n) : readAll f n = none :=
  if_pos h

theorem readAll_full {f : List UInt8} {n : Nat} (h : ¬ f.length < n) :
    readAll f n = some (f.take n, f.drop n) := if_neg h

/-- **The function with its `out` parameter is `checkpointLoad`.** -/
theorem checkpointLoadInto_eq (f : List UInt8) (out : CheckpointState) :
    checkpointLoadInto (some f) out =
      match checkpointLoad f with
      | .error _ => (false, out)
      | .ok s => (true, s) := by
  have header : ∀ off, off + 4 ≤ 16 → wordAt (f.take 16) off = wordAt f off :=
    fun off h => wordAt_take f h
  have body : ∀ off, off + 4 ≤ 48 → wordAt ((f.drop 16).take 48) off = wordAt f (16 + off) := by
    intro off h
    rw [wordAt_take _ h, wordAt_drop]
  have hregs : (Vector.ofFn fun i : Fin 8 => wordAt ((f.drop 16).take 48) (8 + 4 * i.val)) =
      Vector.ofFn fun i : Fin 8 => wordAt f (24 + 4 * i.val) := by
    congr 1
    funext i
    rw [body _ (by omega)]
    congr 1
    omega
  unfold checkpointLoadInto checkpointLoad
  simp only
  by_cases hlen : f.length < 16 + 48
  · rw [if_pos hlen]
    by_cases hheader : f.length < 16
    · rw [readAll_short hheader]
    · have hshort : (f.drop 16).length < 48 := by
        rw [List.length_drop]
        omega
      rw [readAll_full hheader]
      simp only [readAll_short hshort]
  · have hheader : ¬ f.length < 16 := by omega
    have hbody : ¬ (f.drop 16).length < 48 := by
      rw [List.length_drop]
      omega
    rw [if_neg hlen, readAll_full hheader]
    simp only [readAll_full hbody, List.take_take, Nat.min_eq_left (show 8 ≤ 16 by omega)]
    rw [header 8 (by omega), header 12 (by omega), body 0 (by omega), body 4 (by omega),
      body 40 (by omega), body 44 (by omega), hregs]
    split
    · rfl
    split
    · rfl
    · rfl

/-- The magic and the version, as every saved file starts. -/
def checkpointPreamble : List UInt8 := checkpointMagic ++ wordBytes 1

/-- **Whatever is accepted starts as every saved file does.** -/
theorem checkpointLoad_header {f : List UInt8} {s : CheckpointState}
    (h : checkpointLoad f = .ok s) : f.take 12 = checkpointPreamble := by
  unfold checkpointLoad at h
  split at h
  · cases h
  next hlen =>
    split at h
    · cases h
    next hmagic =>
      split at h
      · cases h
      next hversion =>
        have hlong : 4 ≤ (f.drop 8).length := by
          rw [List.length_drop]
          omega
        have hword : wordAt (f.drop 8) 0 = 1 := by
          rw [wordAt_drop]
          exact not_not.mp hversion
        rw [wordAt_zero_iff hlong] at hword
        rw [show 12 = 8 + 4 from rfl, List.take_add, not_not.mp hmagic, hword]
        rfl

theorem checkpointLoad_short {f : List UInt8} (h : f.length < 64) :
    checkpointLoad f = .error .readFailed := if_pos h

/-- **The checkpoint codec is exact, and rejects without a trace.**

* A saved file has 64 bytes, and loading it returns true with every field as it was.
* Every proper prefix of it is rejected, and so is every file that differs from it in magic or
  version.
* Whatever is rejected leaves `out` as it was. -/
theorem checkpoint_codec_exact :
    (∀ s out, (checkpointSave s).length = 64 ∧
      checkpointLoadInto (some (checkpointSave s)) out = (true, s)) ∧
    (∀ s out n, n < 64 →
      (checkpointLoadInto (some ((checkpointSave s).take n)) out).1 = false) ∧
    (∀ s out f, f.take 12 ≠ (checkpointSave s).take 12 →
      (checkpointLoadInto (some f) out).1 = false) ∧
    ∀ file out, (checkpointLoadInto file out).1 = false →
      (checkpointLoadInto file out).2 = out := by
  refine ⟨fun s out => ⟨checkpointSave_length s, ?_⟩, fun s out n hn => ?_,
    fun s out f hf => ?_, fun file out h => ?_⟩
  · rw [checkpointLoadInto_eq, checkpointLoad_checkpointSave]
  · have hshort : ((checkpointSave s).take n).length < 64 := by
      rw [List.length_take]
      omega
    rw [checkpointLoadInto_eq, checkpointLoad_short hshort]
  · rw [checkpointLoadInto_eq]
    cases hload : checkpointLoad f with
    | error e => rfl
    | ok s' => exact absurd (checkpointLoad_header hload) hf
  · cases file with
    | none => rfl
    | some f =>
      rw [checkpointLoadInto_eq] at h ⊢
      cases hload : checkpointLoad f with
      | error e => rfl
      | ok s =>
        rw [hload] at h
        cases h

end RetroVM

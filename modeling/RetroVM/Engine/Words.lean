import RetroVM.Engine.State
import RetroVM.Lib.Records
import Mathlib.Data.List.GetD

/-!
# Little-endian words

Every file of the repository stores its numbers lowest byte first, `.bin` images included: the word
an image has at a 4-byte boundary is the word a fetch there reads.

Results:
* `wordAt_flatMap`: the words written are the words read back.
* **`fetch_imageOf`**: a loaded image is fetched word by word.
-/

namespace RetroVM

/-! ## 32-bit words -/

/-- The four bytes of a word, lowest first. -/
def wordBytes (w : UInt32) : List UInt8 :=
  [w.toUInt8, (w >>> 8).toUInt8, (w >>> 16).toUInt8, (w >>> 24).toUInt8]

/-- The word at an offset of a file; past its end the bytes read as zero. -/
def wordAt (bytes : List UInt8) (off : Nat) : UInt32 :=
  word (bytes.getD off 0) (bytes.getD (off + 1) 0) (bytes.getD (off + 2) 0)
    (bytes.getD (off + 3) 0)

/-- A word is the word of its four bytes. -/
theorem word_bytes (w : UInt32) :
    word w.toUInt8 (w >>> 8).toUInt8 (w >>> 16).toUInt8 (w >>> 24).toUInt8 = w := by
  unfold word
  apply UInt32.toBitVec_inj.mp
  ext i hi
  simp [-UInt32.toUInt32_toUInt8]
  grind

theorem wordBytes_length (w : UInt32) : (wordBytes w).length = 4 := rfl

theorem wordBytes_injective : Function.Injective wordBytes := by
  intro w w' h
  simp only [wordBytes, List.cons.injEq, and_true] at h
  rw [← word_bytes w, ← word_bytes w', h.1, h.2.1, h.2.2.1, h.2.2.2]

theorem wordAt_append (pre bytes : List UInt8) (off : Nat) :
    wordAt (pre ++ bytes) (pre.length + off) = wordAt bytes off := by
  have shift : ∀ k, (pre ++ bytes).getD (pre.length + k) 0 = bytes.getD k 0 := by
    intro k
    rw [List.getD_append_right _ _ _ _ (Nat.le_add_right _ _), Nat.add_sub_cancel_left]
  unfold wordAt
  simp only [Nat.add_assoc, shift]

/-- The word at an offset is the first word of what is there. -/
theorem wordAt_drop (bytes : List UInt8) (off k : Nat) :
    wordAt (bytes.drop off) k = wordAt bytes (off + k) := by
  unfold wordAt
  simp only [List.getD_eq_getElem?_getD, List.getElem?_drop, Nat.add_assoc]

/-- A word is read the same from a file cut off behind it. -/
theorem wordAt_take (bytes : List UInt8) {off n : Nat} (h : off + 4 ≤ n) :
    wordAt (bytes.take n) off = wordAt bytes off := by
  unfold wordAt
  simp only [List.getD_eq_getElem?_getD]
  rw [List.getElem?_take_of_lt (by omega), List.getElem?_take_of_lt (by omega),
    List.getElem?_take_of_lt (by omega), List.getElem?_take_of_lt (by omega)]

/-- A word written is read back, whatever follows it. -/
theorem wordAt_wordBytes (w : UInt32) (rest : List UInt8) :
    wordAt (wordBytes w ++ rest) 0 = w := word_bytes w

theorem flatMap_wordBytes_length (ws : List UInt32) :
    (ws.flatMap wordBytes).length = 4 * ws.length := Records.length_flatMap wordBytes_length ws

/-- **The words written are the words read back.** -/
theorem wordAt_flatMap (ws : List UInt32) (i : Nat) (h : i < ws.length) :
    wordAt (ws.flatMap wordBytes) (4 * i) = ws[i] := by
  rw [← Nat.add_zero (4 * i), ← wordAt_drop, Records.drop_flatMap wordBytes_length,
    List.drop_eq_getElem_cons h, List.flatMap_cons]
  exact wordAt_wordBytes _ _

/-- A file that starts with the bytes of a word has the word there, and the other way round. -/
theorem wordAt_zero_iff {bytes : List UInt8} (h : 4 ≤ bytes.length) {w : UInt32} :
    wordAt bytes 0 = w ↔ bytes.take 4 = wordBytes w := by
  obtain ⟨b0, b1, b2, b3, rest, rfl⟩ :
      ∃ b0 b1 b2 b3 rest, bytes = b0 :: b1 :: b2 :: b3 :: rest := by
    match bytes, h with
    | b0 :: b1 :: b2 :: b3 :: rest, _ => exact ⟨b0, b1, b2, b3, rest, rfl⟩
  have hword : wordAt (b0 :: b1 :: b2 :: b3 :: rest) 0 = word b0 b1 b2 b3 := rfl
  rw [hword]
  constructor
  · rintro rfl
    simp only [wordBytes, word_byte_zero, word_byte_one, word_byte_two, word_byte_three]
    rfl
  · intro hbytes
    have heq : [b0, b1, b2, b3] = wordBytes w := hbytes
    simp only [wordBytes, List.cons.injEq, and_true] at heq
    rw [heq.1, heq.2.1, heq.2.2.1, heq.2.2.2]
    exact word_bytes w

/-- A word is known by its bytes. -/
theorem wordAt_inj {a b : List UInt8} {off : Nat} (h : wordAt a off = wordAt b off) {k : Nat}
    (hk : k < 4) : a.getD (off + k) 0 = b.getD (off + k) 0 := by
  have h0 := congrArg UInt32.toUInt8 h
  have h1 := congrArg (fun w : UInt32 => (w >>> 8).toUInt8) h
  have h2 := congrArg (fun w : UInt32 => (w >>> 16).toUInt8) h
  have h3 := congrArg (fun w : UInt32 => (w >>> 24).toUInt8) h
  unfold wordAt at h0 h1 h2 h3
  simp only [word_byte_zero, word_byte_one, word_byte_two, word_byte_three] at h0 h1 h2 h3
  match k, hk with
  | 0, _ => exact h0
  | 1, _ => exact h1
  | 2, _ => exact h2
  | 3, _ => exact h3

/-! ## 64-bit words -/

/-- The eight bytes of a 64-bit word, lowest first. -/
def dwordBytes (c : UInt64) : List UInt8 := wordBytes c.toUInt32 ++ wordBytes (c >>> 32).toUInt32

/-- The 64-bit word at an offset of a file. -/
def dwordAt (bytes : List UInt8) (off : Nat) : UInt64 :=
  (wordAt bytes off).toUInt64 ||| ((wordAt bytes (off + 4)).toUInt64 <<< 32)

/-- A 64-bit word is made of its two halves. -/
theorem dword_halves (c : UInt64) :
    c.toUInt32.toUInt64 ||| ((c >>> 32).toUInt32.toUInt64 <<< 32) = c := by
  apply UInt64.toBitVec_inj.mp
  ext i hi
  simp [-UInt64.toUInt64_toUInt32]
  grind

theorem dwordBytes_injective : Function.Injective dwordBytes := by
  intro c c' h
  obtain ⟨hlow, hhigh⟩ := List.append_inj h rfl
  rw [← dword_halves c, ← dword_halves c', wordBytes_injective hlow, wordBytes_injective hhigh]

theorem dwordAt_drop (bytes : List UInt8) (off k : Nat) :
    dwordAt (bytes.drop off) k = dwordAt bytes (off + k) := by
  unfold dwordAt
  rw [wordAt_drop, wordAt_drop, Nat.add_assoc]

/-- A 64-bit word written is read back, whatever follows it. -/
theorem dwordAt_dwordBytes (c : UInt64) (rest : List UInt8) :
    dwordAt (dwordBytes c ++ rest) 0 = c := by
  have hhigh : wordAt (dwordBytes c ++ rest) (0 + 4) = (c >>> 32).toUInt32 := by
    rw [dwordBytes, List.append_assoc]
    exact (wordAt_append (wordBytes c.toUInt32) _ 0).trans (wordAt_wordBytes _ _)
  have hlow : wordAt (dwordBytes c ++ rest) 0 = c.toUInt32 := by
    rw [dwordBytes, List.append_assoc]
    exact wordAt_wordBytes _ _
  unfold dwordAt
  rw [hhigh, hlow]
  exact dword_halves c

/-! ## Images -/

theorem arena_ofNat {n : Nat} (h : n < memSize) : arena (UInt32.ofNat n) = ⟨n, h⟩ := by
  have h20 : n < 1048576 := h
  apply Fin.ext
  change ((UInt32.ofNat n) &&& memMask).toNat = n
  have e : memMask.toNat = 2 ^ 20 - 1 := by decide
  have h32 : n < 2 ^ 32 := by omega
  rw [UInt32.toNat_and, e, Nat.and_two_pow_sub_one_eq_mod, UInt32.toNat_ofNat_of_lt' h32]
  omega

/-- Where the cells of a word are. -/
theorem val_of_mem_cells {n : Nat} (hn : n + 4 ≤ memSize) {a : Addr}
    (ha : a ∈ cells (UInt32.ofNat n)) : n ≤ a.val ∧ a.val < n + 4 := by
  have hcell : ∀ k < 4, (arena (UInt32.ofNat n + UInt32.ofNat k)).val = n + k := by
    intro k hk
    rw [← UInt32.ofNat_add, arena_ofNat (by omega)]
  have h3 : (arena (UInt32.ofNat n + 3)).val = n + 3 := hcell 3 (by decide)
  have h2 : (arena (UInt32.ofNat n + 2)).val = n + 2 := hcell 2 (by decide)
  have h1 : (arena (UInt32.ofNat n + 1)).val = n + 1 := hcell 1 (by decide)
  have h0 : (arena (UInt32.ofNat n)).val = n := by
    rw [arena_ofNat (by omega)]
  rcases mem_cells.mp ha with rfl | rfl | rfl | rfl <;> omega

/-- Words that do not overlap share no cell. -/
theorem cells_apart {p q : Nat} (h : p + 4 ≤ q) (hq : q + 4 ≤ memSize) {a : Addr}
    (ha : a ∈ cells (UInt32.ofNat p)) : a ∉ cells (UInt32.ofNat q) := by
  intro ha'
  obtain ⟨-, hlt⟩ := val_of_mem_cells (by omega) ha
  obtain ⟨hle, -⟩ := val_of_mem_cells hq ha'
  omega

/-- A load inside a loaded file reads the word the file has there. -/
theorem memLoadU32_file (bytes : List UInt8) {n : Nat} (h : n + 3 < memSize) :
    memLoadU32 (fun a => bytes.getD a 0) (UInt32.ofNat n) = wordAt bytes n := by
  have step : ∀ k : Nat, UInt32.ofNat n + UInt32.ofNat k = UInt32.ofNat (n + k) :=
    fun k => (UInt32.ofNat_add n k).symm
  rw [memLoadU32_eq, show (1 : UInt32) = UInt32.ofNat 1 from rfl, step,
    show (2 : UInt32) = UInt32.ofNat 2 from rfl, step,
    show (3 : UInt32) = UInt32.ofNat 3 from rfl, step,
    arena_ofNat (by omega), arena_ofNat (by omega), arena_ofNat (by omega), arena_ofNat (by omega)]
  rfl

theorem imageOf_length (words : List UInt32) : (imageOf words).length = 4 * words.length :=
  flatMap_wordBytes_length words

/-- **An image is fetched word by word**: where the `i`-th instruction was written, a fetch reads
it. -/
theorem fetch_imageOf {words : List UInt32} (hfit : words.length ≤ 0x40000) {i : Nat}
    (hi : i < words.length) :
    memLoadU32 (fun a => (imageOf words).getD a 0) (UInt32.ofNat (4 * i)) = words[i] := by
  have hmem : (memSize : Nat) = 1048576 := rfl
  rw [memLoadU32_file _ (by omega)]
  exact wordAt_flatMap words i hi

end RetroVM

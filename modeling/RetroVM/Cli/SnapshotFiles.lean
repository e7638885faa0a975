import RetroVM.Cli.Session
import RetroVM.Snapshot.Timeline

/-!
# The files of `cmd_snapshot` on disk (`main.cpp`)

`cmd_snapshot` prints the path of a file, that of its program and a counter, into a buffer of 512
bytes, and opens it whatever is there. As long as the last counter has room in the buffer, and none
is that of an earlier file, each file gets a path of its own; otherwise a file takes the place of an
earlier one.

Results:
* `ownPaths_of_fit`, `paths_collide`: when two files share a path.
* **`snapshots_all_kept_iff`**, **`snapshots_rewind_from_disk`**.
-/

namespace RetroVM

open Footprint

/-! ## Counters -/

section Counters

variable {m n : Nat}

theorem value_printf04U (n : Nat) : Numerals.value 10 0 (printf04U n) = n := by
  unfold printf04U printfU
  rw [value_zeros (by decide) (by decide), Numerals.value_toDigits (by decide) (by decide)]

theorem printf04U_injective : Function.Injective printf04U := by
  intro m n h
  rw [← value_printf04U m, h, value_printf04U]

theorem printf04U_length (n : Nat) : (printf04U n).length = max 4 (printfU n).length := by
  unfold printf04U
  rw [List.length_append, List.length_replicate]
  omega

theorem four_le_printf04U (n : Nat) : 4 ≤ (printf04U n).length := by
  rw [printf04U_length]
  exact Nat.le_max_left _ _

theorem printf04U_length_le_iff {l : Nat} (hl : 4 ≤ l) : (printf04U n).length ≤ l ↔ n < 10 ^ l := by
  rw [printf04U_length, max_le_iff, printfU,
    Nat.length_toDigits_le_iff (by decide) (Nat.lt_of_lt_of_le (by decide) hl)]
  exact and_iff_right hl

theorem printf04U_length_mono (h : m ≤ n) : (printf04U m).length ≤ (printf04U n).length := by
  have hl := four_le_printf04U n
  rw [printf04U_length_le_iff hl]
  exact Nat.lt_of_le_of_lt h ((printf04U_length_le_iff hl).mp (Nat.le_refl _))

theorem printfU_pow_succ (l : Nat) : printfU (10 ^ (l + 1)) = printfU (10 ^ l) ++ ['0'] := by
  have h := Nat.toDigits_append_toDigits (b := 10) (n := 10 ^ l) (d := 0) (by decide)
    (Nat.pow_pos (by decide)) (by decide)
  rw [Nat.pow_succ, Nat.mul_comm]
  exact h.symm

theorem printfU_pow_length (l : Nat) : (printfU (10 ^ l)).length = l + 1 := by
  induction l with
  | zero => rfl
  | succ l ih => rw [printfU_pow_succ, List.length_append, ih, List.length_singleton]

theorem printf04U_of_long (h : 4 ≤ (printfU n).length) : printf04U n = printfU n := by
  unfold printf04U
  rw [Nat.sub_eq_zero_of_le h]
  rfl

/-- Cut short, the last counter is not the only one that reads as it does. -/
theorem printf04U_collide {l : Nat} (hn : 0 < n) (hl : l < (printf04U n).length) :
    ∃ i j, i < j ∧ j ≤ n ∧ (printf04U i).take l = (printf04U j).take l := by
  by_cases hshort : l < 4
  · have hsame : ∀ l < 4, (printf04U 0).take l = (printf04U 1).take l := by decide
    exact ⟨0, 1, Nat.zero_lt_one, hn, hsame l hshort⟩
  · obtain ⟨l, rfl⟩ := Nat.exists_eq_succ_of_ne_zero (show l ≠ 0 by omega)
    have hlong : ∀ d, l ≤ d → printf04U (10 ^ d) = printfU (10 ^ d) := by
      intro d hd
      apply printf04U_of_long
      rw [printfU_pow_length]
      omega
    refine ⟨10 ^ l, 10 ^ (l + 1), Nat.pow_lt_pow_right (by decide) (Nat.lt_succ_self l), ?_, ?_⟩
    · by_contra hlt
      exact absurd ((printf04U_length_le_iff (Nat.le_of_not_lt hshort)).mpr (Nat.lt_of_not_le hlt))
        (Nat.not_le_of_lt hl)
    · rw [hlong l (Nat.le_refl l), hlong (l + 1) (Nat.le_succ l), printfU_pow_succ,
        List.take_left' (printfU_pow_length l),
        List.take_of_length_le (Nat.le_of_eq (printfU_pow_length l))]

end Counters

/-! ## Paths -/

/-- What it takes to give `n` files paths of their own: the buffer holds the last, and the counter
has not wrapped. -/
def PathsFit (bin : List Char) (n : Nat) : Prop :=
  n ≤ 2 ^ 32 ∧ (bin ++ ".snap.".toList ++ printf04U (n - 1)).length ≤ 511

instance (bin : List Char) (n : Nat) : Decidable (PathsFit bin n) :=
  inferInstanceAs (Decidable (_ ∧ _))

section Paths

variable {bin : List Char} {n : Nat}

theorem snapshotPath_of_fit (h : PathsFit bin n) {i : Nat} (hi : i < n) :
    snapshotPath bin i = bin ++ ".snap.".toList ++ printf04U i := by
  obtain ⟨hcount, hroom⟩ := h
  have hlength := printf04U_length_mono (Nat.le_sub_one_of_lt hi)
  unfold snapshotPath
  rw [Nat.mod_eq_of_lt (Nat.lt_of_lt_of_le hi hcount)]
  apply List.take_of_length_le
  rw [List.length_append] at hroom ⊢
  omega

theorem ownPaths_of_fit (h : PathsFit bin n) {i j : Nat} (hi : i < n) (hj : j < n)
    (hp : snapshotPath bin i = snapshotPath bin j) : i = j := by
  rw [snapshotPath_of_fit h hi, snapshotPath_of_fit h hj] at hp
  exact printf04U_injective (List.append_cancel_left hp)

/-- The program is not one of the files. -/
theorem snapshotPath_ne_bin (h : PathsFit bin n) {i : Nat} (hi : i < n) :
    snapshotPath bin i ≠ bin := by
  intro hp
  rw [snapshotPath_of_fit h hi] at hp
  have hlength := congrArg List.length hp
  simp at hlength

/-- **Where they do not fit, two share a path.** -/
theorem paths_collide (hn : 1 < n) (h : ¬ PathsFit bin n) :
    ∃ i j, i < j ∧ j < n ∧ j ≤ 2 ^ 32 ∧ snapshotPath bin i = snapshotPath bin j := by
  by_cases hcount : n ≤ 2 ^ 32
  · have hroom : 511 - (bin ++ ".snap.".toList).length < (printf04U (n - 1)).length := by
      have hlong : ¬ (bin ++ ".snap.".toList ++ printf04U (n - 1)).length ≤ 511 :=
        fun hroom => h ⟨hcount, hroom⟩
      have hfour := four_le_printf04U (n - 1)
      rw [List.length_append] at hlong
      omega
    have htake : ∀ s, (bin ++ ".snap.".toList ++ s).take 511 =
        (bin ++ ".snap.".toList).take 511 ++ s.take (511 - (bin ++ ".snap.".toList).length) :=
      fun _ => List.take_append
    obtain ⟨i, j, hij, hj, hcut⟩ := printf04U_collide (Nat.sub_pos_of_lt hn) hroom
    refine ⟨i, j, hij, by omega, by omega, ?_⟩
    unfold snapshotPath
    rw [Nat.mod_eq_of_lt (show i < 2 ^ 32 by omega), Nat.mod_eq_of_lt (show j < 2 ^ 32 by omega),
      htake, htake, hcut]
  · refine ⟨0, 2 ^ 32, by decide, Nat.lt_of_not_le hcount, Nat.le_refl _, ?_⟩
    unfold snapshotPath
    rw [Nat.mod_self, Nat.zero_mod]

end Paths

/-! ## Files -/

section Files

variable {writable : List Char → Bool} {bin : List Char} {idx : Nat} {written : Files}
  {snaps : List (List UInt8)}

/-- What is at a path none of the files is written to. -/
theorem snapshotsWritten_of_ne {path : List Char}
    (h : ∀ j < snaps.length, snapshotPath bin (idx + j) ≠ path) :
    snapshotsWritten writable bin idx written snaps path = written path := by
  induction snaps generalizing idx written with
  | nil => rfl
  | cons file rest ih =>
    have hne := h 0 (Nat.zero_lt_succ _)
    rw [snapshotsWritten, ih fun j hj => ?_]
    · split
      · exact Function.update_of_ne hne.symm _ _
      · rfl
    · rw [Nat.succ_add_eq_add_succ]
      exact h (j + 1) (Nat.succ_lt_succ hj)

/-- **The last file written to a path is there.** -/
theorem snapshotsWritten_last {i : Nat} {file : List UInt8} (hi : snaps[i]? = some file)
    (hw : writable (snapshotPath bin (idx + i)))
    (hlast : ∀ j, i < j → j < snaps.length →
      snapshotPath bin (idx + j) ≠ snapshotPath bin (idx + i)) :
    snapshotsWritten writable bin idx written snaps (snapshotPath bin (idx + i)) = some file := by
  induction snaps generalizing idx written i with
  | nil => cases hi
  | cons head rest ih =>
    cases i with
    | zero =>
      obtain rfl := Option.some.inj hi
      rw [snapshotsWritten, snapshotsWritten_of_ne fun j hj => ?_]
      · rw [if_pos (show writable (snapshotPath bin idx) from hw)]
        exact Function.update_self _ _ _
      · rw [Nat.succ_add_eq_add_succ]
        exact hlast (j + 1) (Nat.zero_lt_succ j) (Nat.succ_lt_succ hj)
    | succ i =>
      rw [← Nat.succ_add_eq_add_succ] at hw ⊢
      refine ih hi hw fun j hij hj => ?_
      rw [Nat.succ_add_eq_add_succ, Nat.succ_add_eq_add_succ]
      exact hlast (j + 1) (Nat.succ_lt_succ hij) (Nat.succ_lt_succ hj)

end Files

/-! ## Jobs -/

section Jobs

variable (mt19937 : UInt32 → Nat → UInt32) {job : Job} {bin : List Char} {interval : UInt32}
  {r : HaltReason} {vm : VM} {snaps : List (List UInt8)} {files files' : Files}

/-- What a run of `cmd_snapshot` leaves. -/
theorem snapshot_leaves (hjob : job.inv = .snapshot bin interval)
    (h : (job.action mt19937).run files = some (.snapshots (.halted r vm snaps), files')) :
    (∃ bytes, files bin = some bytes ∧
      cmdSnapshot bytes interval job.stdin job.entropy job.fuel = some (.halted r vm snaps)) ∧
      files' = overlay (snapshotsWritten job.writable bin 0 nothing snaps) files := by
  obtain ⟨w, hw, rfl⟩ := Action.run_eq_some_iff.mp h
  change job.effect mt19937 files = _ at hw
  unfold Job.effect at hw
  rw [hjob] at hw
  dsimp only at hw
  unfold withProgram at hw
  cases hbin : files bin with
  | none =>
    rw [hbin] at hw
    cases hw
  | some bytes =>
    rw [hbin] at hw
    obtain ⟨out, hout, hreport⟩ := Option.map_eq_some_iff.mp hw
    obtain ⟨hsnap, rfl⟩ := Prod.mk.inj hreport
    obtain rfl := JobReport.snapshots.inj hsnap
    exact ⟨⟨bytes, rfl, hout⟩, rfl⟩

/-- A file that no later one takes the place of is there. -/
theorem snapshot_kept (hjob : job.inv = .snapshot bin interval)
    (h : (job.action mt19937).run files = some (.snapshots (.halted r vm snaps), files'))
    {i : Nat} {file : List UInt8} (hi : snaps[i]? = some file)
    (hw : job.writable (snapshotPath bin i))
    (hlast : ∀ j, i < j → j < snaps.length → snapshotPath bin j ≠ snapshotPath bin i) :
    files' (snapshotPath bin i) = some file := by
  obtain ⟨-, rfl⟩ := snapshot_leaves mt19937 hjob h
  rw [← Nat.zero_add i] at hw ⊢
  unfold overlay
  rw [snapshotsWritten_last hi hw fun j hij hj => ?_]
  · rfl
  · rw [Nat.zero_add, Nat.zero_add]
    exact hlast j hij hj

/-- The program is still there. -/
theorem snapshot_program (hjob : job.inv = .snapshot bin interval)
    (h : (job.action mt19937).run files = some (.snapshots (.halted r vm snaps), files'))
    (hfit : PathsFit bin snaps.length) : files' bin = files bin := by
  obtain ⟨-, rfl⟩ := snapshot_leaves mt19937 hjob h
  refine overlay_of_none (snapshotsWritten_of_ne fun j hj => ?_)
  rw [Nat.zero_add]
  exact snapshotPath_ne_bin hfit hj

end Jobs

/-- Files from different cycles differ, as long as they are not too far apart. -/
theorem cycles_ne {k : UInt32} (hk : k ≠ 0) {i j : Nat} (hij : i < j) (hj : j ≤ 2 ^ 32) :
    UInt64.ofNat ((i + 1) * k.toNat) ≠ UInt64.ofNat ((j + 1) * k.toNat) := by
  intro h
  have hmod := congrArg UInt64.toNat h
  rw [UInt64.toNat_ofNat', UInt64.toNat_ofNat'] at hmod
  obtain ⟨d, rfl⟩ := Nat.exists_eq_add_of_lt hij
  have hpos : 0 < k.toNat := Nat.pos_of_ne_zero fun e => hk (UInt32.toNat.inj e)
  have hapart : (d + 1) * k.toNat < 2 ^ 64 :=
    Nat.lt_of_le_of_lt (Nat.mul_le_mul_right _ (show d + 1 ≤ 2 ^ 32 by omega))
      (Nat.mul_lt_mul_of_pos_left k.toNat_lt (by decide))
  have hsome : 0 < (d + 1) * k.toNat := Nat.mul_pos (Nat.succ_pos d) hpos
  have hsum : (i + d + 1 + 1) * k.toNat = (i + 1) * k.toNat + (d + 1) * k.toNat := by
    rw [← Nat.add_mul]
    congr 1
    omega
  rw [hsum] at hmod
  omega

/-- The files of a run, if that is what is reported. -/
def JobReport.snaps : JobReport → Option (List (List UInt8))
  | .snapshots out => out.files
  | _ => none

theorem JobReport.of_snaps {report : JobReport} {snaps : List (List UInt8)}
    (h : report.snaps = some snaps) : ∃ r vm, report = .snapshots (.halted r vm snaps) := by
  cases report with
  | snapshots out =>
    cases out with
    | halted r vm snaps' =>
      obtain rfl := Option.some.inj h
      exact ⟨r, vm, rfl⟩
    | tooLarge | uncaught => cases h
  | _ => cases h

section Disk

variable (mt19937 : UInt32 → Nat → UInt32)

/-- **When every file is kept.** Once `snapshot` has halted, and could write to its paths, each of
its files is at its path iff there is no second one, or the buffer and the counter are large enough
for the last. -/
theorem snapshots_all_kept_iff (job : Job) (bin : List Char) (interval : UInt32)
    (hk : interval ≠ 0) (hjob : job.inv = .snapshot bin interval) (r : HaltReason) (vm : VM)
    (snaps : List (List UInt8)) (files files' : Files)
    (hw : ∀ i < snaps.length, job.writable (snapshotPath bin i))
    (h : (job.action mt19937).run files = some (.snapshots (.halted r vm snaps), files')) :
    (∀ i file, snaps[i]? = some file → files' (snapshotPath bin i) = some file) ↔
      snaps.length ≤ 1 ∨ PathsFit bin snaps.length := by
  constructor
  · intro hall
    by_contra hno
    obtain ⟨hmany, hfit⟩ := not_or.mp hno
    obtain ⟨i, j, hij, hj, hclose, hsame⟩ := paths_collide (Nat.lt_of_not_le hmany) hfit
    have hi := List.getElem?_eq_getElem (Nat.lt_trans hij hj)
    have hj' := List.getElem?_eq_getElem hj
    have heq : snaps[i] = snaps[j] := by
      apply Option.some.inj
      rw [← hall i _ hi, hsame]
      exact hall j _ hj'
    obtain ⟨⟨bytes, -, hrun⟩, -⟩ := snapshot_leaves mt19937 hjob h
    refine cycles_ne hk hij hclose ?_
    rw [← cmdSnapshot_cycles hk hrun hi, heq]
    exact cmdSnapshot_cycles hk hrun hj'
  · intro hfew i file hi
    obtain ⟨hlt, -⟩ := List.getElem?_eq_some_iff.mp hi
    refine snapshot_kept mt19937 hjob h hi (hw i hlt) fun j hij hj hsame => ?_
    rcases hfew with hone | hfit
    · omega
    · exact absurd (ownPaths_of_fit hfit hlt hj hsame.symm) (Nat.ne_of_lt hij)

/-- `snapshot` of `LI R0, 7; HALT` at a path of 503 characters, every cycle: two files, both at a
path that ends in `.snap.00`. -/
theorem snapshots_all_kept_iff_long_path :
    ∃ (snaps : List (List UInt8)) (files' : Files), snaps.length = 2 ∧
      ¬ ∀ i file, snaps[i]? = some file →
        files' (snapshotPath (List.replicate 503 'p') i) = some file := by
  let bin := List.replicate 503 'p'
  let job : Job := ⟨.snapshot bin 1, fun _ => 0, fun _ => 0, fun _ => true, 2⟩
  have htwo : (((job.action fun _ _ => 0).run (wrote bin (imageOf [encode 0x0B 0 0 7, 0]))).bind
      fun e => e.1.snaps).map List.length = some 2 := by
    decide +kernel
  obtain ⟨snaps, hsnaps, hlength⟩ := Option.map_eq_some_iff.mp htwo
  obtain ⟨⟨report, files'⟩, hrun, hreport⟩ := Option.bind_eq_some_iff.mp hsnaps
  obtain ⟨r, vm, rfl⟩ := JobReport.of_snaps hreport
  have hfit : ¬ (2 ≤ 1 ∨ PathsFit bin 2) := by
    decide +kernel
  refine ⟨snaps, files', hlength, fun hall => hfit ?_⟩
  rw [← hlength]
  exact (snapshots_all_kept_iff (fun _ _ => 0) job bin 1 (by decide) rfl r vm snaps _ files'
    (fun _ _ => rfl) hrun).mp hall

/-- The paths `snapshot` writes `n` files to. -/
def snapshotPaths (bin : List Char) (n : Nat) : Set (List Char) :=
  {path | ∃ i < n, snapshotPath bin i = path}

/-- The files on disk between two instants. -/
def shelf (files : Files) (bin : List Char) (i j : Nat) : List (List UInt8) :=
  (List.range' i (j - i)).filterMap fun n => files (snapshotPath bin n)

theorem shelf_eq {files : Files} {bin : List Char} {snaps : List (List UInt8)} {i j : Nat}
    (hj : j ≤ snaps.length) (h : ∀ n < snaps.length, files (snapshotPath bin n) = snaps[n]?) :
    shelf files bin i j = (snaps.take j).drop i := by
  unfold shelf
  rw [List.drop_take]
  generalize hd : j - i = d
  have hle : i + d ≤ snaps.length ∨ d = 0 := by omega
  clear hd
  induction d generalizing i with
  | zero => rfl
  | succ d ih =>
    have hlt : i < snaps.length := by omega
    have hi : files (snapshotPath bin i) = some snaps[i] := by
      rw [h i hlt]
      exact List.getElem?_eq_getElem hlt
    rw [List.range'_succ, List.filterMap_cons_some (f := fun n => files (snapshotPath bin n)) hi,
      List.drop_eq_getElem_cons hlt, List.take_succ_cons, ih (by omega)]

/-- **The run is rewound from what is on disk.** Once `snapshot` has halted, its files written to
paths of their own, any commands may follow, as long as none of them writes to those paths or to the
program: the deltas then on disk between two instants take the memory `cmd_run` of the program then
on disk has at the later one back to the memory it has at the earlier one. -/
theorem snapshots_rewind_from_disk (job : Job) (bin : List Char) (interval : UInt32)
    (hk : interval ≠ 0) (hjob : job.inv = .snapshot bin interval) (r : HaltReason) (vm : VM)
    (snaps : List (List UInt8)) (files files' files'' : Files)
    (hw : ∀ i < snaps.length, job.writable (snapshotPath bin i))
    (hfit : PathsFit bin snaps.length)
    (h : (job.action mt19937).run files = some (.snapshots (.halted r vm snaps), files'))
    (log : List (Job × JobReport))
    (hlog : Runs (Job.action mt19937) (Spares (insert bin (snapshotPaths bin snaps.length))) log
      files' files'')
    (i j : Nat) (hij : i ≤ j) (hj : j ≤ snaps.length) :
    ∃ bytes u u', files'' bin = some bytes ∧
      runInstant bytes job.stdin job.entropy interval i = some u ∧
      runInstant bytes job.stdin job.entropy interval j = some u' ∧
      rewound (shelf files'' bin i j) u'.mem = u.mem := by
  have hthere : ∀ n < snaps.length, files'' (snapshotPath bin n) = snaps[n]? := by
    intro n hn
    have hget := List.getElem?_eq_getElem hn
    rw [spares_frame mt19937 hlog (.inr ⟨n, hn, rfl⟩), hget]
    exact snapshot_kept mt19937 hjob h hget (hw n hn) fun m hnm hm hsame =>
      absurd (ownPaths_of_fit hfit hn hm hsame.symm) (Nat.ne_of_lt hnm)
  obtain ⟨⟨bytes, hbin, hrun⟩, -⟩ := snapshot_leaves mt19937 hjob h
  rw [← snapshot_program mt19937 hjob h hfit, ← spares_frame mt19937 hlog (.inl rfl)] at hbin
  obtain ⟨vm0, hb, fs, hfiles, hfilmed, hchain, -⟩ := cmdSnapshot_filmed hk hrun
  have hlength : snaps.length = fs.length := by rw [hfiles, List.length_map]
  obtain ⟨u, u', hu, hu', hmem⟩ := hfilmed.rewinds hchain rfl hij (hlength ▸ hj)
  refine ⟨bytes, u, u', hbin, ?_, ?_, ?_⟩
  · rw [runInstant_eq hb, hu]
    rfl
  · rw [runInstant_eq hb, hu']
    rfl
  · rw [shelf_eq hj hthere, hfiles]
    exact hmem

/-- `snapshot p 1` of `LI R0, 7; STORE R0, 0x100; STORE R0, 0x101; HALT`, `inspect s`: both stores
are taken back. -/
theorem snapshots_rewind_from_disk_stores :
    ∃ (files'' : Files) (u u' : Machine (Nat × Nat)),
      rewound (shelf files'' ['p'] 2 4) u'.mem = u.mem ∧ u.mem 0x101 = 0 ∧ u'.mem 0x101 = 7 := by
  let image := imageOf [encode 0x0B 0 0 7, encode 0x02 0 0 0x100, encode 0x02 0 0 0x101, 0]
  let job : Job := ⟨.snapshot ['p'] 1, fun _ => 0, fun _ => 0, fun _ => true, 4⟩
  let inspect : Job := ⟨.inspect ['s'], fun _ => 0, fun _ => 0, fun _ => true, 0⟩
  have hfour : (((job.action fun _ _ => 0).run (wrote ['p'] image)).bind
      fun e => e.1.snaps).map List.length = some 4 := by
    decide +kernel
  have hearly : (runInstant image (fun _ => 0) (fun _ => 0) 1 2).map (·.mem 0x101) = some 0 := by
    decide +kernel
  have hlate : (runInstant image (fun _ => 0) (fun _ => 0) 1 4).map (·.mem 0x101) = some 7 := by
    decide +kernel
  obtain ⟨snaps, hsnaps, hlength⟩ := Option.map_eq_some_iff.mp hfour
  obtain ⟨⟨report, files'⟩, hrun, hreport⟩ := Option.bind_eq_some_iff.mp hsnaps
  obtain ⟨r, vm, rfl⟩ := JobReport.of_snaps hreport
  have hfit : PathsFit ['p'] snaps.length := by
    rw [hlength]
    decide +kernel
  have hlog : Runs (Job.action fun _ _ => 0)
      (Spares (insert ['p'] (snapshotPaths ['p'] snaps.length))) [(inspect, _)] files' files' :=
    .cons (Set.disjoint_empty _) (inspect_run _ rfl files') (.nil files')
  obtain ⟨bytes, u, u', hbin, hu, hu', hmem⟩ := snapshots_rewind_from_disk (fun _ _ => 0) job ['p']
    1 (by decide) rfl r vm snaps _ _ _ (fun _ _ => rfl) hfit hrun _ hlog 2 4 (by decide)
    (Nat.le_of_eq hlength.symm)
  rw [snapshot_program _ (show job.inv = .snapshot ['p'] 1 from rfl) hrun hfit] at hbin
  obtain rfl : image = bytes := Option.some.inj hbin
  rw [hu] at hearly
  rw [hu'] at hlate
  exact ⟨files', u, u', hmem, Option.some.inj hearly, Option.some.inj hlate⟩

end Disk

end RetroVM

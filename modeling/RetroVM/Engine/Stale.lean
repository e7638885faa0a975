import RetroVM.Engine.Alike

/-!
# Running on stale memory

Two runs that differ in some bytes of memory and in nothing else stay that way for as long as no
stale byte is read: a store overwrites the byte in both runs, and a byte never stored to keeps its
two values. So whether the runs end in the same memory is whether every stale byte was rewritten.

Results:
* `cycle_mem_frame`: a cycle leaves every byte alone that it does not write.
* **`stale_run`**: the lock step of two such runs, with the bytes still stale after `n` turns.
-/

namespace RetroVM

variable {ε δ : Type}

/-- Byte `a` is stored to in the first `n` turns of the run from `m`. -/
def Rewritten (E : Env ε) (m : Machine ε) (n : Nat) (a : Addr) : Prop :=
  ∃ i, i < n ∧ ∃ m', StepLoop.after (Machine.cycle E) i m = .ok m' ∧ a ∈ m'.writes

/-- The run from `m` reads a byte of `S` only after it stored to it. -/
def NoStaleRead (E : Env ε) (m : Machine ε) (S : Set Addr) : Prop :=
  ∀ n m', StepLoop.after (Machine.cycle E) n m = .ok m' →
    ∀ a ∈ m'.reads, a ∈ S → Rewritten E m n a

/-- The bytes of `S` not stored to in the first `n` turns. -/
def stillStale (E : Env ε) (m : Machine ε) (S : Set Addr) (n : Nat) : Set Addr :=
  {a | a ∈ S ∧ ¬ Rewritten E m n a}

/-- Hooks that answer alike in related states. -/
def SameHooks (E : Env ε) (F : Env δ) (R : ε → δ → Prop) : Prop :=
  ∀ q cycle e d, R e d → Answers R (consult E.hooks q cycle e) (consult F.hooks q cycle d)

/-- Nothing is rewritten once the run is over. -/
theorem Rewritten.of_exit {E : Env ε} {m : Machine ε} {n d : Nat} {a : Addr}
    (h : Rewritten E m n a) {x : Exit ε} (hd : StepLoop.after (Machine.cycle E) d m = .error x) :
    Rewritten E m d a := by
  obtain ⟨i, -, m', hm, ha⟩ := h
  refine ⟨i, ?_, m', hm, ha⟩
  by_contra hle
  obtain ⟨e, rfl⟩ := Nat.exists_eq_add_of_le (Nat.le_of_not_lt hle)
  rw [StepLoop.after_add_error hd e] at hm
  cases hm

theorem sameHooks_rfl (E : Env ε) : SameHooks E E Eq := by
  rintro q cycle e d rfl
  exact ⟨rfl, rfl, rfl, rfl⟩

/-! ## Bytes a cycle leaves alone -/

theorem retire_mem_frame (E : Env ε) {instr : UInt32} (m : Machine ε) {a : Addr}
    (ha : a ∉ (decode instr).elim ∅ Instr.writes) :
    (landed (m.retire E instr)).mem a = m.mem a := by
  unfold Machine.retire
  cases hd : decode instr with
  | none => rfl
  | some i =>
    rw [hd] at ha
    simp only
    cases i with
    | store dst imm =>
      change memStoreU32 m.mem imm _ a = m.mem a
      rw [memStoreU32_eq, pokeU32_of_notMem ha]
    | ask q dst =>
      change (landed (Machine.receive (m.dispatched instr) dst _)).vm.mem a = _
      rw [landed_receive, received_mem]
      rfl
    | div dst src =>
      simp only [Instr.effect]
      split <;> rfl
    | _ => rfl

/-- **A cycle leaves every byte alone that it does not write.** -/
theorem cycle_mem_frame (E : Env ε) {m : Machine ε} {a : Addr} (ha : a ∉ m.writes) :
    (landed (m.cycle E)).mem a = m.mem a := by
  have hfired := (fired_frame E m.advance.tick).2.1
  unfold Machine.cycle
  rcases snapTick_cases E m.advance with ⟨-, ht⟩ | ⟨-, -, ht⟩ | ⟨-, -, -, ht⟩ | ⟨-, -, -, ht⟩
  · rw [ht]
    exact retire_mem_frame E m.advance ha
  · rw [ht]
    exact retire_mem_frame E m.advance.tick ha
  · rw [ht]
    exact (retire_mem_frame E _ ha).trans (congrFun hfired a)
  · rw [ht]
    exact congrFun hfired a

/-- What was never stored to is as it was. -/
theorem after_mem_frame {E : Env ε} {m k : Machine ε} {n : Nat}
    (hn : StepLoop.after (Machine.cycle E) n m = .ok k) {a : Addr} (ha : ¬ Rewritten E m n a) :
    k.mem a = m.mem a := by
  induction n generalizing k with
  | zero =>
    obtain rfl := Except.ok.inj hn
    rfl
  | succ n ih =>
    obtain ⟨u, hu, hc⟩ := StepLoop.after_ok_pred hn
    have hframe := cycle_mem_frame E (m := u) (a := a) fun hw =>
      ha ⟨n, Nat.lt_succ_self n, u, hu, hw⟩
    rw [hc, landed_ok] at hframe
    rw [hframe]
    exact ih hu fun ⟨i, hi, hrest⟩ => ha ⟨i, Nat.lt_succ_of_lt hi, hrest⟩

/-- The bytes a turn touches, where the word it fetches is known. -/
theorem exists_footprint {E : Env ε} {m0 : Machine ε} {n : Nat} {pc : UInt32} {i : Instr}
    (h : ((StepLoop.after (Machine.cycle E) n m0).toOption.map fun m =>
      (m.state.pc, decode m.fetched)) = some (pc, some i)) :
    ∃ m, StepLoop.after (Machine.cycle E) n m0 = .ok m ∧ m.reads = cells pc ∪ i.reads ∧
      m.writes = i.writes := by
  obtain ⟨m, hm, hat⟩ := Option.map_eq_some_iff.mp h
  obtain ⟨rfl, hd⟩ := Prod.mk.inj hat
  refine ⟨m, ?_, ?_, ?_⟩
  · cases hafter : StepLoop.after (Machine.cycle E) n m0 with
    | ok u =>
      rw [hafter] at hm
      rw [Option.some.inj hm]
    | error x =>
      rw [hafter] at hm
      cases hm
  · unfold Machine.reads
    rw [hd]
    rfl
  · unfold Machine.writes
    rw [hd]
    rfl

/-! ## The lock step -/

section LockStep

variable {E : Env ε} {F : Env δ} {S : Set Addr} {R : ε → δ → Prop} {pre : List Call}
  {m : Machine ε} {k : Machine δ}

theorem rewritten_succ_ok {n : Nat} {k' : Machine δ}
    (h : StepLoop.after (Machine.cycle F) n k = .ok k') {a : Addr} :
    Rewritten F k (n + 1) a ↔ Rewritten F k n a ∨ a ∈ k'.writes := by
  constructor
  · rintro ⟨i, hi, u, hu, ha⟩
    rcases Nat.lt_succ_iff_lt_or_eq.mp hi with hlt | rfl
    · exact .inl ⟨i, hlt, u, hu, ha⟩
    · obtain rfl : u = k' := Except.ok.inj (hu.symm.trans h)
      exact .inr ha
  · rintro (⟨i, hi, u, hu, ha⟩ | ha)
    · exact ⟨i, Nat.lt_succ_of_lt hi, u, hu, ha⟩
    · exact ⟨n, Nat.lt_succ_self n, k', h, ha⟩

theorem rewritten_succ_error {n : Nat} {y : Exit δ}
    (h : StepLoop.after (Machine.cycle F) n k = .error y) {a : Addr} :
    Rewritten F k (n + 1) a ↔ Rewritten F k n a := by
  constructor
  · rintro ⟨i, hi, u, hu, ha⟩
    rcases Nat.lt_succ_iff_lt_or_eq.mp hi with hlt | rfl
    · exact ⟨i, hlt, u, hu, ha⟩
    · cases hu.symm.trans h
  · rintro ⟨i, hi, u, hu, ha⟩
    exact ⟨i, Nat.lt_succ_of_lt hi, u, hu, ha⟩

theorem stillStale_succ_ok {n : Nat} {k' : Machine δ}
    (h : StepLoop.after (Machine.cycle F) n k = .ok k') :
    stillStale F k S (n + 1) = stillStale F k S n \ k'.writes := by
  ext a
  simp only [stillStale, Set.mem_ofPred_eq, Set.mem_sdiff, rewritten_succ_ok h, not_or, and_assoc]

theorem stillStale_succ_error {n : Nat} {y : Exit δ}
    (h : StepLoop.after (Machine.cycle F) n k = .error y) :
    stillStale F k S (n + 1) = stillStale F k S n := by
  ext a
  simp only [stillStale, Set.mem_ofPred_eq, rewritten_succ_error h]

/-- Alike but for the bytes in `S`, which do differ, and both running with snapshots off. -/
structure StaleIn (S : Set Addr) (R : ε → δ → Prop) (pre : List Call) (m : Machine ε)
    (k : Machine δ) : Prop where
  alike   : Alike S R pre [] m k
  differs : ∀ a ∈ S, m.mem a ≠ k.mem a
  running : m.state.halted = .running
  off     : m.state.snapInterval = 0
  off'    : k.state.snapInterval = 0

/-- Ended alike but for the bytes in `S`, which do differ. -/
structure StaleExit (S : Set Addr) (R : ε → δ → Prop) (pre : List Call) (x : Exit ε)
    (y : Exit δ) : Prop where
  alike   : AlikeExit S R pre [] x y
  differs : ∀ a ∈ S, x.machine.mem a ≠ y.machine.mem a

/-- One turn: what it writes is stale no more, and everything else stale still is. -/
theorem stale_turn (hh : SameHooks E F R) (h : StaleIn S R pre m k)
    (hreads : ∀ a ∈ k.reads, a ∉ S) :
    StepLoop.Matched (StaleIn (S \ k.writes) R pre) (StaleExit (S \ k.writes) R pre)
      (m.cycle E) (k.cycle F) := by
  have hfetch : m.fetched = k.fetched :=
    h.alike.fetched fun a ha => hreads a (Or.inl (h.alike.pc ▸ ha))
  have hreads' : m.reads = k.reads := by
    unfold Machine.reads
    rw [hfetch, h.alike.pc]
  have hwrites : m.writes = k.writes := by
    unfold Machine.writes
    rw [hfetch]
  have hmatch := cycle_alike (F := F) h.alike h.running h.off' (snapTick_off E h.off) h.alike.env
    (hreads' ▸ hreads) fun q dst _ => hh q _ _ _ h.alike.env
  rw [hwrites] at hmatch
  have differs : ∀ a ∈ S \ k.writes,
      (landed (m.cycle E)).mem a ≠ (landed (k.cycle F)).mem a := by
    rintro a ⟨ha, hw⟩
    rw [cycle_mem_frame E (hwrites ▸ hw), cycle_mem_frame F hw]
    exact h.differs a ha
  refine hmatch.imp (fun u v hu hv huv => ⟨huv, ?_, cycle_running h.running hu, ?_, ?_⟩)
    fun x y hx hy hxy => ⟨hxy, ?_⟩
  · rwa [hu, hv] at differs
  · have := (cycle_frame E m).2.2
    rw [hu] at this
    exact this.trans h.off
  · have := (cycle_frame F k).2.2
    rw [hv] at this
    exact this.trans h.off'
  · rwa [hx, hy] at differs

/-- **Running on stale memory.** While `k`'s run reads no stale byte, `m`'s does the same, and after
`n` turns they differ in the bytes not rewritten by then. -/
theorem stale_run (hh : SameHooks E F R) (h : StaleIn S R pre m k) (hno : NoStaleRead F k S)
    (n : Nat) :
    StepLoop.Matched (StaleIn (stillStale F k S n) R pre) (StaleExit (stillStale F k S n) R pre)
      (StepLoop.after (Machine.cycle E) n m) (StepLoop.after (Machine.cycle F) n k) := by
  induction n with
  | zero =>
    have hS : stillStale F k S 0 = S := by
      ext a
      simp [stillStale, Rewritten]
    rw [hS]
    exact .ok h
  | succ n ih =>
    cases hk : StepLoop.after (Machine.cycle F) n k with
    | ok k' =>
      rw [hk] at ih
      obtain ⟨m', hm, h'⟩ := ih.ok_of
      rw [StepLoop.after_succ_right hk, StepLoop.after_succ_right hm, stillStale_succ_ok hk]
      exact stale_turn hh h' fun a ha hs => hs.2 (hno n k' hk a ha hs.1)
    | error y =>
      rw [hk] at ih
      obtain ⟨x, hm, h'⟩ := ih.error_of
      rw [StepLoop.after_add_error hk 1, StepLoop.after_add_error hm 1, stillStale_succ_error hk]
      exact .error h'

end LockStep

end RetroVM

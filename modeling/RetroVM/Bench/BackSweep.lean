import RetroVM.Bench.Workload
import RetroVM.Snapshot.Periodic

/-!
# The sweep over intervals and depths (`main.cpp`, `cmd_benchmark_back_sweep`)

`do_back` clamps its target to slot 0 and goes back to whatever is there. It is exact while two
things hold in front of it: nothing is pending, since `set_state` leaves the delta log alone and
`undo_deltas` does not look at it; and the target slot holds a snapshot that was taken, and not the
filler of the first push. `cmd_debug` has both by its baseline and its interval of 1; the sweep has
neither. Stores that are pending to bytes it puts back anyway do not show, until their deltas are
drained into the next snapshot.

Results:
* `reached_remembers`: what holds in front of every `do_back`.
* **`sweep_rewind_is_exact`**.
* `sweep_restores_filler`: interval 100, depth 257.
-/

namespace RetroVM

namespace Bench

open UndoLog

variable {η : Type}

namespace BackSweep

/-- The target of `do_back`. -/
def target (depth : UInt64) (m : BenchVM η) : Nat :=
  if depth.toNat > m.env.2.historyIndex then 0 else m.env.2.historyIndex - depth.toNat

/-- `do_back`. -/
def doBack (depth : UInt64) (m : BenchVM η) : Option (BenchVM η) := rewindTo (target depth m) m

/-- The VMs in front of a `do_back`: after the run to `HALT`, and after any number of pairs, each
from a VM that `meets` a condition. -/
inductive Reached (hooks : IOHooks η) (bytes : List UInt8) (interval : UInt32) (depth : UInt64)
    (e : η) (meets : BenchVM η → Prop) : BenchVM η → Prop
  | halted {m0 m : BenchVM η} {fuel : Nat} : start bytes interval e = some m0 →
      run hooks fuel m0 = some (.normal, m) → Reached hooks bytes interval depth e meets m
  | pair {m m' m'' : BenchVM η} {fuel : Nat} : Reached hooks bytes interval depth e meets m →
      meets m → doBack depth m = some m' → doStep hooks fuel depth m' = some m'' →
        Reached hooks bytes interval depth e meets m''

/-- `do_back` leaves the VM in the state its target snapshot was taken in. -/
def Exact (depth : UInt64) (m : BenchVM η) : Prop :=
  ∃ f ∈ firings m.history, m.env.2.ring[target depth m]? = some f.snapshot ∧
    ∃ m', doBack depth m = some m' ∧ Stands m' f

/-- A snapshot was taken into the target slot. -/
def Taken (depth : UInt64) (m : BenchVM η) : Prop :=
  ∃ s, m.env.2.ring[target depth m]? = some s ∧ s ≠ default

/-- Nothing is pending, and a snapshot was taken into the target slot. -/
structure Ready (depth : UInt64) (m : BenchVM η) : Prop where
  settled : m.vm.deltas = []
  taken   : Taken depth m

theorem target_eq (depth : UInt64) (m : BenchVM η) :
    ∃ n ≤ m.env.2.historyIndex, target depth m = m.env.2.historyIndex - n := by
  unfold target
  split
  · exact ⟨m.env.2.historyIndex, Nat.le_refl _, (Nat.sub_self _).symm⟩
  · next hle => exact ⟨depth.toNat, Nat.le_of_not_lt hle, rfl⟩

section Back

variable {depth : UInt64} {m : BenchVM η} {timeline : List (Moment η)}

/-- A target slot that is not the filler is a moment of the timeline. -/
theorem Taken.moment (h : Taken depth m) (hrem : Remembers timeline m) :
    ∃ n f, n ≤ m.env.2.historyIndex ∧ target depth m = m.env.2.historyIndex - n ∧
      n < timeline.length ∧ timeline[timeline.length - 1 - n]? = some f := by
  obtain ⟨n, hn, htarget⟩ := target_eq depth m
  obtain ⟨s, hs, hne⟩ := h
  rw [htarget] at hs
  have hslot := hrem.slot hn (List.getElem?_eq_some_iff.mp hs).1
  rw [hs] at hslot
  have hlt : n < timeline.length := by
    by_contra hge
    rw [Nat.sub_eq_zero_of_le (Nat.le_of_not_lt hge)] at hslot
    exact hne (Option.some.inj hslot)
  exact ⟨n, _, hn, htarget, hlt, List.getElem?_eq_getElem (by omega)⟩

/-- **One `do_back`** to a snapshot that was taken, what is pending masked. -/
theorem Taken.back (h : Taken depth m) (hmasked : Masked (target depth m) m)
    (hrem : Remembers timeline m) :
    ∃ f ∈ timeline, m.env.2.ring[target depth m]? = some f.snapshot ∧
      ∃ m', doBack depth m = some m' ∧ Stands m' f := by
  obtain ⟨n, f, hn, htarget, hlt, hf⟩ := h.moment hrem
  unfold doBack
  rw [htarget] at hmasked ⊢
  obtain ⟨hring, hback, hstands⟩ := hrem.restores hmasked hn hf hlt
  exact ⟨f, List.mem_of_getElem? hf, hring, _, hback, hstands⟩

/-- One `do_back` from a VM that is ready: it can be gone on from. -/
theorem Ready.remembers {m' : BenchVM η} (h : Ready depth m) (hrem : Remembers timeline m)
    (hback : doBack depth m = some m') : ∃ timeline', Remembers timeline' m' := by
  obtain ⟨n, f, hn, htarget, hlt, hf⟩ := Taken.moment h.taken hrem
  obtain ⟨-, hback', -, hrem'⟩ := hrem.rewound h.settled hn hf hlt
  unfold doBack at hback
  rw [htarget] at hback
  obtain rfl := Option.some.inj (hback.symm.trans hback')
  exact ⟨_, hrem'⟩

end Back

section Reached

variable {hooks : IOHooks η} {bytes : List UInt8} {interval : UInt32} {depth : UInt64} {e : η}
  {m : BenchVM η}

/-- **What holds in front of every `do_back`**, in a run all of whose steps are ready. -/
theorem reached_remembers (h : Reached hooks bytes interval depth e (Ready depth) m) :
    ∃ timeline, Remembers timeline m := by
  induction h with
  | halted hstart hrun =>
    obtain ⟨hrem, hr⟩ := remembers_start hstart
    obtain ⟨new, hnew⟩ := hrem.run hr hrun
    exact ⟨_, hnew.remembers⟩
  | pair _ hready hback hstep ih =>
    obtain ⟨timeline, hrem⟩ := ih
    obtain ⟨timeline', hrem'⟩ := hready.remembers hrem hback
    obtain ⟨⟨r, u⟩, hrun, rfl⟩ := Option.map_eq_some_iff.mp hstep
    obtain ⟨new, hnew⟩ := (hrem'.toStep depth).run rfl hrun
    exact ⟨_, hnew.remembers⟩

/-- **When rewind is exact under sparse snapshots.** Take any image, interval, depth and hooks, and
any number of `do_back`/`do_step` pairs after the run to `HALT`, each from a VM that was ready:
nothing pending, and a snapshot in the target slot. From a VM that is ready, `do_back` leaves the
state the target snapshot was taken in: registers, pc, sp, flags, cycle and memory. So it does,
once, with stores pending to bytes that the deltas it undoes put back. It never does so with the
filler in the target slot. -/
theorem sweep_rewind_is_exact (h : Reached hooks bytes interval depth e (Ready depth) m) :
    (Ready depth m → Exact depth m) ∧
      (Taken depth m → Masked (target depth m) m → Exact depth m) ∧
      (Exact depth m → Taken depth m) := by
  obtain ⟨timeline, hrem⟩ := reached_remembers h
  have hexact : Taken depth m → Masked (target depth m) m → Exact depth m := by
    intro htaken hmasked
    obtain ⟨f, hf, hring, m', hback, hstands⟩ := htaken.back hmasked hrem
    exact ⟨f, hrem.past f hf, hring, m', hback, hstands⟩
  refine ⟨fun hready => hexact hready.taken (masked_of_settled hready.settled _), hexact, ?_⟩
  rintro ⟨f, hf, hring, -⟩
  exact ⟨f.snapshot, hring, hrem.ne_default hf⟩

end Reached

/-- `LI R0, 7; STORE R0, 0x100; LI R0, 8; STORE R0, 0x100; HALT`, with a snapshot every second
cycle: back over both stores, the second of them pending. -/
theorem sweep_rewind_is_exact_store :
    ∃ m : BenchVM (Nat × Nat), m.mem 0x100 = 8 ∧ m.vm.deltas.length = 1 ∧ Exact 1 m := by
  let hooks := hostHooks (fun _ => 0) (fun _ => 0)
  let bytes := imageOf [encode 0x0B 0 0 7, encode 0x02 0 0 0x100, encode 0x0B 0 0 8,
    encode 0x02 0 0 0x100, 0]
  let undone : BenchVM (Nat × Nat) → List Snapshot := fun m =>
    (m.env.2.ring.take (m.env.2.historyIndex + 1)).drop (target 1 m + 1)
  have hrun : ((start bytes 2 (0, 0)).bind fun m0 => run hooks 5 m0).map (fun p =>
      (p.1, p.2.vm.deltas.map MemDelta.addr, p.2.mem 0x100,
        (undone p.2).map fun s => s.deltas.map MemDelta.addr,
        decide (p.2.env.2.ring[target 1 p.2]?.getD default ≠ default))) =
      some (.normal, [0x100], 8, [[0x100]], true) := by
    decide +kernel
  obtain ⟨⟨r, m⟩, hm, hshown⟩ := Option.map_eq_some_iff.mp hrun
  obtain ⟨m0, hstart, hrun'⟩ := Option.bind_eq_some_iff.mp hm
  simp only [Prod.mk.injEq, decide_eq_true_eq] at hshown
  obtain ⟨rfl, hpending, hmem, hback, hslot⟩ := hshown
  obtain ⟨d, hd, hdaddr⟩ := List.map_eq_singleton_iff.mp hpending
  obtain ⟨s, hs, hlog⟩ := List.map_eq_singleton_iff.mp hback
  obtain ⟨d', hd', haddr'⟩ := List.map_eq_singleton_iff.mp hlog
  have hmasked : Masked (target 1 m) m := by
    intro a
    by_cases ha : a ∈ cells 0x100
    · have hmem : s ∈ undone m := hs ▸ List.mem_cons_self
      exact .inr ⟨s, hmem, d', hd' ▸ List.mem_cons_self, haddr' ▸ ha⟩
    · refine .inl ?_
      rw [hd]
      exact (pokeU32_of_notMem (show a ∉ cells d.addr from hdaddr ▸ ha)).symm
  have htaken : Taken 1 m := by
    cases hring : m.env.2.ring[target 1 m]? with
    | none =>
      rw [hring] at hslot
      exact absurd rfl hslot
    | some s =>
      rw [hring] at hslot
      exact ⟨s, hring, hslot⟩
  exact ⟨m, hmem, by rw [hd]; rfl,
    (sweep_rewind_is_exact (.halted hstart hrun')).2.1 htaken hmasked⟩

/-- **The sweep restores the filler.** At interval 100 the workload takes 92 snapshots, and at depth
257 `do_back` goes back to slot 0: to a VM with `sp` 0, which is nowhere it ever was. -/
theorem sweep_restores_filler :
    ¬ ∀ m : BenchVM (Nat × Nat),
      Reached (hostHooks (fun _ => 0) (fun _ => 0)) (imageOf workload) 100 257 (0, 0)
        (fun _ => True) m → Exact 257 m := by
  intro hall
  let hooks := hostHooks (fun _ => 0) (fun _ => 0)
  obtain ⟨m0, hstart, hgoing, hoff, hcycle, hinterval, htimer, hhistory, hindex⟩ :=
    exists_start 100 ((0, 0) : Nat × Nat)
  obtain ⟨hrem, hrunning⟩ := remembers_start hstart
  obtain ⟨u, x, hu, hx, hstop⟩ := hgoing.leaves hrunning hoff hooks
  have hrun := run_of_after hrunning hu hx hstop
  obtain ⟨new, hnew⟩ := hrem.run hrunning hrun
  -- 9219 turns fire 92 times
  have hclock : Clock 0 100 0 0 m0 :=
    ⟨by decide, hcycle, hinterval, by rw [htimer]; rfl, by rw [hhistory]; rfl⟩
  have hcount : new.length = 92 := by
    obtain ⟨q, r, hqr, hu'⟩ := after_clock hclock (E := env hooks) rfl hu
    obtain ⟨q', r', hqr', hx'⟩ := cycle_clock hu' (E := env hooks) rfl
    rw [hx, landed_error] at hx'
    have hrest := hx'.rest
    have hlen := congrArg List.length hx'.firings
    rw [List.length_map, List.length_map, List.length_range, hnew.fires, hhistory,
      firings_nil, List.nil_append] at hlen
    change r' < 100 at hrest
    change q * 100 + r = 0 * 100 + 0 + 9218 at hqr
    change q' * 100 + r' = q * 100 + r + 1 at hqr'
    omega
  have hlast : x.machine.env.2.historyIndex = 92 := by
    rw [hnew.index, hindex, hcount]
    rfl
  have htarget : target 257 x.machine = x.machine.env.2.historyIndex - 92 := by
    unfold target
    rw [hlast]
    rfl
  obtain ⟨f, hf, hring, -⟩ := hall x.machine (.halted hstart hrun)
  have hslot := hnew.remembers.slot (n := 92) (by omega) (by
    rw [htarget] at hring
    exact (List.getElem?_eq_some_iff.mp hring).1)
  rw [List.nil_append, hcount] at hslot
  rw [htarget, hslot] at hring
  exact hnew.remembers.ne_default hf (Option.some.inj hring).symm

/-! ## The command -/

/-- What is in a cell of the grid. -/
inductive Cell where
  /-- `ERR!`. -/
  | err
  /-- The time a round took. -/
  | timed

/-- A cell of `cmd_benchmark_back_sweep`: `none` reads past the end of the ring, or did not see the
end of a run. -/
def cell (stdin rng : Nat → UInt32) (fuel nIters : Nat) (interval : UInt32) (depth : UInt64) :
    Option Cell :=
  match start (imageOf workload) interval (0, 0) with
  | none => some .err
  | some m0 =>
    (run (hostHooks stdin rng) fuel m0).bind fun (sanity, m) =>
      if sanity ≠ .normal ∨ m.state.cycleCount ≠ 2 + 9 * 1024 + 1 then some .err
      else
        (rounds (doBack depth) (doStep (hostHooks stdin rng) fuel depth) (nIters + 1) m).map
          fun _ => .timed

/-- `cmd_benchmark_back_sweep`, a list for each interval. -/
def cmdBenchmarkBackSweep (stdin rng : Nat → UInt32) (fuel nIters : Nat) :
    Option (List (List Cell)) :=
  [1, 10, 100].mapM fun interval => [1, 50, 257, 512, 1024].mapM fun depth =>
    cell stdin rng fuel nIters interval depth

theorem Reached.rounds {hooks : IOHooks η} {bytes : List UInt8} {interval : UInt32}
    {depth : UInt64} {e : η} {fuel n : Nat} {m m' : BenchVM η}
    (h : Reached hooks bytes interval depth e (fun _ => True) m)
    (hr : rounds (doBack depth) (doStep hooks fuel depth) n m = some m') :
    Reached hooks bytes interval depth e (fun _ => True) m' := by
  induction n generalizing m with
  | zero =>
    obtain rfl := Option.some.inj hr
    exact h
  | succ n ih =>
    obtain ⟨u, hu, hrest⟩ := Option.bind_eq_some_iff.mp hr
    obtain ⟨v, hback, hstep⟩ := Option.bind_eq_some_iff.mp hu
    exact ih (h.pair trivial hback hstep) hrest

/-- **A cell with a time in it** has come from one VM in front of a `do_back` to another. -/
theorem cell_reached {stdin rng : Nat → UInt32} {fuel nIters : Nat} {interval : UInt32}
    {depth : UInt64} (h : cell stdin rng fuel nIters interval depth = some .timed) :
    ∃ m m', rounds (doBack depth) (doStep (hostHooks stdin rng) fuel depth) (nIters + 1) m =
        some m' ∧
      Reached (hostHooks stdin rng) (imageOf workload) interval depth (0, 0) (fun _ => True) m ∧
      Reached (hostHooks stdin rng) (imageOf workload) interval depth (0, 0) (fun _ => True)
        m' := by
  unfold cell at h
  split at h
  · cases h
  next m0 hstart =>
    obtain ⟨⟨sanity, m⟩, hrun, hm⟩ := Option.bind_eq_some_iff.mp h
    dsimp only at hm
    split at hm
    · cases hm
    next hsane =>
      obtain rfl := not_not.mp (not_or.mp hsane).1
      obtain ⟨m', hm', -⟩ := Option.map_eq_some_iff.mp hm
      have hreached : Reached (hostHooks stdin rng) (imageOf workload) interval depth (0, 0)
          (fun _ => True) m := .halted hstart hrun
      exact ⟨m, m', hm', hreached, hreached.rounds hm'⟩

end BackSweep

end Bench

end RetroVM

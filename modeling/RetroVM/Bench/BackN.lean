import RetroVM.Bench.Workload

/-!
# Back and forth by a fixed depth (`main.cpp`, `cmd_benchmark_backn`; `--bench-back`)

After the sanity run the ring is full and the index at its end, and a `do_back`/`do_step` pair is
meant to leave it there. A snapshot shows pc behind the fetch it was taken on, so the run resumed
from it skips the instruction that was fetched. Going back `depth` snapshots from the `HALT` leads
to a fetch with `depth + 1` fetches left, that one included. Where it is a `JNZ`, the resumed run
skips the jump and halts at once; at every other depth it has at least `depth` fetches left, and
the step boundary stops it.

Results:
* `sanity_ring`: ring and timeline after the sanity run.
* `Taken.resumed`: what is left after going back.
* `Steady.pair`, `skipped_jump`: a pair that keeps the index, and one that does not.
* **`backn_stays_in_ring_iff`**; `backn_leaves_ring`: depth 100.
-/

namespace RetroVM

namespace Bench

open HistoryRing UndoLog

variable {η : Type}

namespace BackN

/-- The target of `do_back`, a `size_t`. -/
def target (depth : Nat) (m : BenchVM η) : Nat :=
  (m.env.2.historyIndex + 2 ^ 64 - depth) % 2 ^ 64

/-- `do_back`. -/
def doBack (depth : Nat) (m : BenchVM η) : Option (BenchVM η) := rewindTo (target depth m) m

/-- The VM after the sanity run, which has to halt in the expected cycle. -/
def Sanity (hooks : IOHooks η) (e : η) (m : BenchVM η) : Prop :=
  ∃ m0 fuel, start (imageOf workload) 1 e = some m0 ∧ run hooks fuel m0 = some (.normal, m) ∧
    m.state.cycleCount = 2 + 9 * kBenchmarkLoopCount.toUInt64 + 1

/-- The VM after `i` pairs. -/
inductive Paired (hooks : IOHooks η) (depth : Nat) (m0 : BenchVM η) : Nat → BenchVM η → Prop
  | start : Paired hooks depth m0 0 m0
  | pair {i fuel : Nat} {m m' m'' : BenchVM η} : Paired hooks depth m0 i m →
      doBack depth m = some m' → doStep hooks fuel (UInt64.ofNat depth) m' = some m'' →
        Paired hooks depth m0 (i + 1) m''

/-- Each of the `n + 1` calls of `do_back` finds its target in the ring, and each pair comes to an
end and leaves the index at 255. -/
def StaysInRing (hooks : IOHooks η) (depth n : Nat) (m0 : BenchVM η) : Prop :=
  ∀ i ≤ n, ∀ m, Paired hooks depth m0 i m →
    depth ≤ m.env.2.historyIndex ∧ m.env.2.historyIndex - depth < m.env.2.ring.length ∧
      (∃ m', Paired hooks depth m0 (i + 1) m') ∧
        ∀ m', Paired hooks depth m0 (i + 1) m' → m'.env.2.historyIndex = 255

/-! ## Fetches -/

/-- A snapshot taken on a fetch of the workload, with `n` fetches left, that one included. -/
def Taken (n : Nat) (f : Moment η) : Prop :=
  f.vm.state.cycleCount = UInt64.ofNat (9219 - n + 1) ∧
    ∃ p v c, Valid p v ∧ left p v = n ∧ At p v c f.vm.mem ∧ f.vm.state.cpu = fetch c

/-- **What is left after going back** `depth` snapshots: the fetch of a `JNZ` is resumed behind the
jump, in front of the `HALT`; every other one leaves the step its length. -/
theorem Taken.resumed {depth : Nat} {f : Moment η} (h : Taken (depth + 1) f) (hpos : 1 ≤ depth)
    (hle : depth ≤ 255) {m : BenchVM η} (hcpu : m.state.cpu = f.vm.state.cpu)
    (hmem : m.mem = f.vm.mem) :
    ∃ n, Going n m ∧ 1 ≤ n ∧ (depth % 9 = 1 → n = 1) ∧ (depth % 9 ≠ 1 → depth ≤ n) := by
  obtain ⟨-, p, v, c, hv, hleft, hat, hfetch⟩ := h
  obtain ⟨hposition, hcount, hinside, hfirst⟩ := hv
  -- so close to the end the workload is in its loop
  have hloop : 2 ≤ p ∧ p ≤ 10 := by
    unfold left at hleft
    split at hleft
    · omega
    · split at hleft
      · omega
      · split at hleft
        · omega
        · omega
  have hat' : At (p + 1) v m.state.cpu m.mem := by
    rw [hcpu, hfetch, hmem]
    exact hat.skipped hloop.1
  have hv' : Valid (p + 1) v :=
    ⟨by omega, hcount, fun _ _ => hinside (by omega) (by omega), by omega⟩
  refine ⟨left (p + 1) v, ⟨p + 1, v, hv', rfl, hat'⟩, (left_pos hv').1, ?_⟩
  unfold left at hleft ⊢
  rw [if_neg (by omega), if_neg (by omega)] at hleft
  rw [if_neg (by omega)]
  by_cases h10 : p = 10
  · rw [if_pos h10] at hleft
    rw [if_pos (by omega)]
    omega
  · rw [if_neg h10] at hleft
    rw [if_neg (by omega)]
    have hpos' := hinside (by omega) (by omega)
    split
    · omega
    · omega

/-- A VM in the middle of a run that fires on every fetch. -/
structure Stepping (m : BenchVM η) : Prop where
  running  : m.state.halted = .running
  interval : m.state.snapInterval = 1
  timer    : m.state.snapTimer = 1

section Stepping

variable {hooks : IOHooks η} {m m' : BenchVM η}

theorem Stepping.next (h : Stepping m) (hc : m.cycle (env hooks) = .ok m') : Stepping m' := by
  have hevery := cycle_every (env hooks) h.interval h.timer
  rw [hc] at hevery
  exact ⟨cycle_running h.running hc, hevery.1, hevery.2⟩

/-- A fetch that fires drains the log. -/
theorem Stepping.drained (h : Stepping m) {u : BenchVM η}
    (hu : m.advance.snapTick (env hooks) = .ok u) : u.vm.deltas = [] := by
  rcases snapTick_cases (env hooks) m.advance with
    ⟨h0, -⟩ | ⟨-, h1, -⟩ | ⟨-, -, -, ht⟩ | ⟨-, -, -, ht⟩
  · have : m.state.snapInterval = 0 := h0
    rw [h.interval] at this
    cases this
  · exact absurd h.timer h1
  · cases ht.symm.trans hu
    exact (fired_frame (env hooks) m.advance.tick).2.2.1
  · cases ht.symm.trans hu

/-- A fetch on the step boundary. -/
theorem Stepping.halts (h : Stepping m) (hooks : IOHooks η)
    (hq : m.env.2.pause (m.state.cycleCount + 1) = some .step) :
    ∃ x, m.cycle (env hooks) = .error x ∧ x.stop = .returned .step ∧ x.machine.vm.deltas = [] := by
  have hsink := sink_eq m.advance.vm.snapshot m.advance.vm.drained m.advance.env
  have hpause : m.advance.env.2.pause m.advance.vm.snapshot.cycleCount = some .step := hq
  rw [hpause] at hsink
  have htick := snapTick_every_halt (E := env hooks) (m := m.advance) rfl h.interval h.timer
    (by decide) (congrArg Prod.fst hsink)
  obtain ⟨x, hx, hstop, hdeltas⟩ : ∃ x, m.advance.snapTick (env hooks) = .error x ∧
      x.stop = .returned .step ∧ x.machine.vm.deltas = [] := ⟨_, htick, rfl, rfl⟩
  refine ⟨x, ?_, hstop, hdeltas⟩
  unfold Machine.cycle
  rw [hx]

end Stepping

/-! ## The sanity run -/

/-- The run with `n` fetches left: every snapshot so far was taken on the fetch it is due on. -/
structure Filling (n : Nat) (m : BenchVM η) : Prop where
  going    : Going n m
  stepping : Stepping m
  off      : m.env.2.targetCycle = uint64Max
  cycle    : m.state.cycleCount = UInt64.ofNat (9219 - n)
  fired    : (firings m.history).length = 9219 - n
  taken    : ∀ j f, (firings m.history)[j]? = some f → Taken (9219 - j) f

section Filling

variable {m : BenchVM η} {n : Nat}

/-- The snapshot of the next fetch is due on it. -/
theorem Filling.firing (h : Filling n m) : Taken n (firing m) := by
  obtain ⟨p, v, hv, hleft, hat⟩ := h.going
  refine ⟨?_, p, v, m.state.cpu, hv, hleft, hat, rfl⟩
  change m.state.cycleCount + 1 = _
  rw [h.cycle, UInt64.ofNat_add]
  rfl

/-- A turn of the sanity run, the last one too. -/
theorem Filling.fires (h : Filling n m) (hooks : IOHooks η) (hpos : 1 ≤ n) (hle : n ≤ 9219) :
    (firings (landed (m.cycle (env hooks))).history).length = 9219 - (n - 1) ∧
      ∀ j f, (firings (landed (m.cycle (env hooks))).history)[j]? = some f →
        Taken (9219 - j) f := by
  have hfire : firings (landed (m.cycle (env hooks))).history =
      firings m.history ++ [Bench.firing m] :=
    cycle_firings rfl h.stepping.interval h.stepping.timer
  rw [hfire]
  constructor
  · rw [List.length_append, h.fired, List.length_singleton]
    omega
  · intro j f hj
    rcases Nat.lt_or_ge j (9219 - n) with hlt | hge
    · rw [List.getElem?_append_left (by rw [h.fired]; exact hlt)] at hj
      exact h.taken j f hj
    · rw [List.getElem?_append_right (by rw [h.fired]; exact hge), h.fired] at hj
      obtain ⟨hone, rfl⟩ := List.getElem?_eq_some_iff.mp hj
      rw [List.length_singleton] at hone
      have hj' : 9219 - j = n := by omega
      rw [hj', List.getElem_singleton]
      exact h.firing

/-- A turn of the sanity run in the loop. -/
theorem Filling.turn (h : Filling (n + 2) m) (hooks : IOHooks η) (hle : n + 2 ≤ 9219) :
    ∃ m', m.cycle (env hooks) = .ok m' ∧ Filling (n + 1) m' := by
  obtain ⟨u, hu, htarget⟩ := tick_passes hooks h.stepping.running (pause_off h.off _)
  obtain ⟨m', hm', hgoing, henv⟩ := h.going.turn hu
  have hfires := h.fires hooks (by omega) hle
  have hframe := (cycle_frame (env hooks) m).1
  rw [hm', landed_ok] at hfires hframe
  refine ⟨m', hm', hgoing, h.stepping.next hm', ?_, ?_, hfires.1, hfires.2⟩
  · rw [henv, htarget, h.off]
  · rw [hframe, h.cycle, show 9219 - (n + 1) = 9219 - (n + 2) + 1 by omega, UInt64.ofNat_add]
    rfl

end Filling

/-- A VM between two pairs. -/
structure Between (timeline : List (Moment η)) (m : BenchVM η) : Prop where
  remembers : Remembers timeline m
  settled   : m.vm.deltas = []
  interval  : m.state.snapInterval = 1
  timer     : m.state.snapTimer = 1
  index     : m.env.2.historyIndex = 255

/-- **Ring and timeline after the sanity run**: the ring is full, and the snapshot of every fetch is
on the timeline. -/
theorem sanity_ring (hooks : IOHooks η) (e : η) :
    ∃ m timeline, Sanity hooks e m ∧ Between timeline m ∧ timeline.length = 9219 ∧
      ∀ j f, timeline[j]? = some f → Taken (9219 - j) f := by
  obtain ⟨m0, hstart, hgoing, hoff, hcycle, hinterval, htimer, hhistory, hindex⟩ :=
    exists_start 1 e
  obtain ⟨hrem, hrunning⟩ := remembers_start hstart
  have h0 : Filling 9219 m0 :=
    ⟨hgoing, ⟨hrunning, hinterval, htimer⟩, hoff, by rw [hcycle, Nat.sub_self]; rfl,
      by rw [hhistory, Nat.sub_self]; rfl, fun j f hj => by rw [hhistory] at hj; cases hj⟩
  let P : Nat → BenchVM η → Prop := fun k u => Filling (k + 1) u ∧ k + 1 ≤ 9219
  have hround : ∀ k u, P (k + 1) u →
      ∃ u', StepLoop.after (Machine.cycle (env hooks)) 1 u = .ok u' ∧ P k u' := by
    rintro k u ⟨hfill, hle⟩
    obtain ⟨u', hu', hfill'⟩ := hfill.turn hooks hle
    exact ⟨u', by rw [StepLoop.after_one, hu'], hfill', by omega⟩
  obtain ⟨u, hu, hfill, -⟩ := StepLoop.after_countdown hround 9218 ⟨h0, by decide⟩
  obtain ⟨w, hw, -⟩ := tick_passes hooks hfill.stepping.running (pause_off hfill.off _)
  obtain ⟨x, hx, hstop, hdeltas⟩ := hfill.going.halt hw
  have hrun := run_of_after hrunning hu hx hstop
  obtain ⟨new, hnew⟩ := hrem.run hrunning hrun
  have hfires := hfill.fires hooks (by decide) (by decide)
  have hevery := cycle_every (env hooks) hfill.stepping.interval hfill.stepping.timer
  have hframe := (cycle_frame (env hooks) u).1
  have hfire := hnew.fires
  rw [hx, landed_error] at hfires hevery hframe
  rw [hhistory, firings_nil, List.nil_append] at hfire
  rw [hfire] at hfires
  refine ⟨x.machine, new, ⟨m0, _, hstart, hrun, ?_⟩, ?_, hfires.1, hfires.2⟩
  · rw [hframe, hfill.cycle]
    decide
  · refine ⟨hnew.remembers, hdeltas.trans (hfill.stepping.drained hw), hevery.1, hevery.2, ?_⟩
    rw [hnew.index, hindex, hfires.1]
    decide

/-- There is one sanity run. -/
theorem sanity_unique {hooks : IOHooks η} {e : η} {m m' : BenchVM η} (h : Sanity hooks e m)
    (h' : Sanity hooks e m') : m = m' := by
  obtain ⟨m0, fuel, hstart, hrun, -⟩ := h
  obtain ⟨m0', fuel', hstart', hrun', -⟩ := h'
  obtain rfl := Option.some.inj (hstart.symm.trans hstart')
  exact (Prod.mk.inj (run_unique hrun hrun')).2

/-! ## Pairs -/

section Pairs

variable {depth : Nat} {f : Moment η} {m : BenchVM η}

theorem target_eq (hle : depth ≤ 255) (hindex : m.env.2.historyIndex = 255) :
    target depth m = m.env.2.historyIndex - depth := by
  unfold target
  omega

/-- A VM between two pairs, `depth` snapshots behind `f`. -/
structure Steady (depth : Nat) (f : Moment η) (timeline : List (Moment η)) (m : BenchVM η) : Prop
    extends Between timeline m where
  long : depth < timeline.length
  back : timeline[timeline.length - 1 - depth]? = some f

/-- The VM `do_back` leaves, its `do_step` about to run. -/
def stepping (depth : Nat) (m : BenchVM η) (f : Moment η) : BenchVM η :=
  toStep (UInt64.ofNat depth) (restored m f (255 - depth))

/-- Going back from between two pairs. -/
theorem Steady.doBack {timeline : List (Moment η)} (h : Steady depth f timeline m)
    (hle : depth ≤ 255) :
    BackN.doBack depth m = some (restored m f (255 - depth)) ∧
      Remembers (timeline.take (timeline.length - depth)) (stepping depth m f) ∧
      Stands (restored m f (255 - depth)) f := by
  obtain ⟨-, hback, hstands, hrem⟩ := h.remembers.rewound h.settled (n := depth)
    (by rw [h.index]; exact hle) h.back h.long
  rw [h.index] at hback hstands hrem
  refine ⟨?_, hrem.toStep _, hstands⟩
  unfold BackN.doBack
  rw [target_eq hle h.index, h.index]
  exact hback

/-- The run up to a step boundary, `k + 1` fetches ahead. -/
structure Bounded (k : Nat) (m : BenchVM η) : Prop where
  going    : ∃ n, Going n m ∧ k + 1 ≤ n
  stepping : Stepping m
  target   : m.env.2.targetCycle = 9219
  cycle    : m.state.cycleCount = UInt64.ofNat (9218 - k)
  ahead    : k ≤ 9218

/-- A turn before the boundary. -/
theorem Bounded.turn {k : Nat} (h : Bounded (k + 1) m) (hooks : IOHooks η) :
    ∃ m', m.cycle (env hooks) = .ok m' ∧ Bounded k m' := by
  obtain ⟨⟨n, hgoing, hn⟩, hstepping, htarget, hcycle, hahead⟩ := h
  have hnext : m.state.cycleCount + 1 = UInt64.ofNat (9218 - k) := by
    rw [hcycle, show 9218 - k = 9218 - (k + 1) + 1 by omega, UInt64.ofNat_add]
    rfl
  have hq : m.env.2.pause (m.state.cycleCount + 1) = none := by
    refine if_neg fun hdue => ?_
    have hge := UInt64.le_iff_toNat_le.mp hdue.2
    rw [htarget, hnext, UInt64.toNat_ofNat_of_lt' (by
      have : UInt64.size = 18446744073709551616 := rfl
      omega)] at hge
    change 9219 ≤ 9218 - k at hge
    omega
  obtain ⟨u, hu, htarget'⟩ := tick_passes hooks hstepping.running hq
  obtain ⟨r, rfl⟩ := Nat.exists_eq_add_of_le' (show 2 ≤ n by omega)
  obtain ⟨m', hm', hgoing', henv⟩ := hgoing.turn hu
  have hframe := (cycle_frame (env hooks) m).1
  rw [hm', landed_ok] at hframe
  refine ⟨m', hm', ⟨r + 1, hgoing', by omega⟩, hstepping.next hm', ?_, ?_, by omega⟩
  · rw [henv, htarget', htarget]
  · rw [hframe, hnext]

/-- The turn on the boundary. -/
theorem Bounded.halts (h : Bounded 0 m) (hooks : IOHooks η) :
    ∃ x, m.cycle (env hooks) = .error x ∧ x.stop = .returned .step ∧ x.machine.vm.deltas = [] := by
  refine h.stepping.halts hooks ?_
  unfold Locals.pause
  rw [h.target, h.cycle]
  decide

/-- The step comes to its boundary, one snapshot a fetch. -/
theorem Bounded.leaves {k : Nat} (h : Bounded k m) (hooks : IOHooks η) :
    ∃ u x, StepLoop.after (Machine.cycle (env hooks)) k m = .ok u ∧
      u.cycle (env hooks) = .error x ∧ x.stop = .returned .step ∧ x.machine.vm.deltas = [] ∧
      x.machine.state.snapInterval = 1 ∧ x.machine.state.snapTimer = 1 ∧
      (firings x.machine.history).length = (firings m.history).length + (k + 1) := by
  have hround : ∀ k s, Bounded (k + 1) s →
      ∃ s', StepLoop.after (Machine.cycle (env hooks)) 1 s = .ok s' ∧ Bounded k s' := by
    intro k s hs
    obtain ⟨s', hs', hb⟩ := hs.turn hooks
    exact ⟨s', by rw [StepLoop.after_one, hs'], hb⟩
  obtain ⟨u, hu, hlast⟩ := StepLoop.after_countdown hround k h
  rw [Nat.mul_one] at hu
  obtain ⟨x, hx, hstop, hdeltas⟩ := hlast.halts hooks
  have hevery := cycle_every (env hooks) hlast.stepping.interval hlast.stepping.timer
  have hfire := cycle_firings (E := env hooks) rfl hlast.stepping.interval hlast.stepping.timer
  have hcount := after_firings_length (E := env hooks) rfl h.stepping.interval h.stepping.timer hu
  rw [hx, landed_error] at hevery hfire
  refine ⟨u, x, hu, hx, hstop, hdeltas, hevery.1, hevery.2, ?_⟩
  rw [hfire, List.length_append, hcount, List.length_singleton]
  omega

/-- The cycle a step starts in, and its boundary. -/
theorem Steady.target {timeline : List (Moment η)} (h : Steady depth f timeline m)
    (htaken : Taken (depth + 1) f) (hle : depth ≤ 255) :
    (stepping depth m f).state.cycleCount = UInt64.ofNat (9219 - depth) ∧
      (stepping depth m f).env.2.targetCycle = 9219 := by
  obtain ⟨-, -, hstands⟩ := h.doBack hle
  have hcycle : (stepping depth m f).state.cycleCount = UInt64.ofNat (9219 - depth) := by
    refine hstands.cycleCount.trans (htaken.1.trans ?_)
    congr 1
    omega
  refine ⟨hcycle, ?_⟩
  change (stepping depth m f).state.cycleCount + UInt64.ofNat depth = 9219
  rw [hcycle, ← UInt64.ofNat_add, show 9219 - depth + depth = 9219 by omega]
  rfl

/-- The VM about to run a step, of which `f` leaves enough. -/
theorem Steady.bounded {timeline : List (Moment η)} (h : Steady depth f timeline m)
    (htaken : Taken (depth + 1) f) (hpos : 1 ≤ depth) (hle : depth ≤ 255)
    (hgood : depth = 1 ∨ depth % 9 ≠ 1) : Bounded (depth - 1) (stepping depth m f) := by
  obtain ⟨-, -, hstands⟩ := h.doBack hle
  obtain ⟨hcycle, htarget⟩ := h.target htaken hle
  obtain ⟨n, hgoing, hn, hjump, hother⟩ := htaken.resumed hpos hle (m := stepping depth m f)
    hstands.cpu hstands.mem
  refine ⟨⟨n, hgoing, ?_⟩, ⟨rfl, h.interval, h.timer⟩, htarget, ?_, by omega⟩
  · by_cases h9 : depth % 9 = 1
    · omega
    · have := hother h9
      omega
  · rw [hcycle]
    congr 1
    omega

/-- **A pair keeps the index** and the target, if the step has its length. -/
theorem Steady.pair {timeline : List (Moment η)} (h : Steady depth f timeline m)
    (hooks : IOHooks η) (htaken : Taken (depth + 1) f) (hpos : 1 ≤ depth) (hle : depth ≤ 255)
    (hgood : depth = 1 ∨ depth % 9 ≠ 1) :
    ∃ m' m'' timeline' fuel, BackN.doBack depth m = some m' ∧
      doStep hooks fuel (UInt64.ofNat depth) m' = some m'' ∧ Steady depth f timeline' m'' := by
  obtain ⟨hback, hrem, hstands⟩ := h.doBack hle
  obtain ⟨u, x, hu, hx, hstop, hdeltas, hinterval, htimer, hcount⟩ :=
    (h.bounded htaken hpos hle hgood).leaves hooks
  have hrun := run_of_after (m := stepping depth m f) rfl hu hx hstop
  obtain ⟨new, hnew⟩ := hrem.run rfl hrun
  have hlen : new.length = depth := by
    rw [hnew.fires, List.length_append] at hcount
    omega
  have hlong := h.long
  have hcut : (timeline.take (timeline.length - depth)).length = timeline.length - depth := by
    rw [List.length_take]
    omega
  refine ⟨_, x.machine, timeline.take (timeline.length - depth) ++ new, _, hback,
    congrArg (Option.map Prod.snd) hrun, ⟨⟨hnew.remembers, hdeltas, hinterval, htimer, ?_⟩, ?_, ?_⟩⟩
  · rw [hnew.index, hlen]
    change min 255 (255 - depth + depth) = 255
    omega
  · rw [List.length_append, hcut, hlen]
    omega
  · rw [List.length_append, hcut, hlen, show timeline.length - depth + depth - 1 - depth =
      timeline.length - 1 - depth by omega, List.getElem?_append_left (by omega),
      List.getElem?_take_of_lt (by omega)]
    exact h.back

/-- **A pair that skips the jump** halts on its first fetch, and loses the index. -/
theorem Steady.skipped_jump {timeline : List (Moment η)} (h : Steady depth f timeline m)
    (hooks : IOHooks η) (htaken : Taken (depth + 1) f) (hle : depth ≤ 255)
    (hjump : depth % 9 = 1) (hne : depth ≠ 1) :
    ∃ m' m'' fuel, BackN.doBack depth m = some m' ∧
      doStep hooks fuel (UInt64.ofNat depth) m' = some m'' ∧
        m''.env.2.historyIndex = 256 - depth := by
  obtain ⟨hback, hrem, hstands⟩ := h.doBack hle
  obtain ⟨n, hgoing, -, hone, -⟩ := htaken.resumed (by omega) hle (m := stepping depth m f)
    hstands.cpu hstands.mem
  obtain rfl := hone hjump
  have htarget := h.target htaken hle
  have hq : (stepping depth m f).env.2.pause ((stepping depth m f).state.cycleCount + 1) =
      none := by
    refine if_neg fun hdue => ?_
    have hge := UInt64.le_iff_toNat_le.mp hdue.2
    have hnext : (stepping depth m f).state.cycleCount + 1 = UInt64.ofNat (9219 - depth + 1) := by
      rw [htarget.1, UInt64.ofNat_add]
      rfl
    rw [htarget.2, hnext, UInt64.toNat_ofNat_of_lt' (by
      have : UInt64.size = 18446744073709551616 := rfl
      omega)] at hge
    change 9219 ≤ 9219 - depth + 1 at hge
    omega
  obtain ⟨u, hu, -⟩ := tick_passes hooks (m := stepping depth m f) rfl hq
  obtain ⟨x, hx, hstop, -⟩ := hgoing.halt hu
  have hrun := run_of_after (m := stepping depth m f) rfl (StepLoop.after_zero _) hx hstop
  obtain ⟨new, hnew⟩ := hrem.run rfl hrun
  have hfire := cycle_firings (E := env hooks) rfl (m := stepping depth m f) h.interval h.timer
  rw [hx, landed_error, hnew.fires] at hfire
  have hlen : new.length = 1 := by
    rw [List.append_cancel_left hfire]
    rfl
  refine ⟨_, x.machine, _, hback, congrArg (Option.map Prod.snd) hrun, ?_⟩
  rw [hnew.index, hlen]
  change min 255 (255 - depth + 1) = 256 - depth
  omega

end Pairs

/-! ## The steady state -/

section Pairing

variable {hooks : IOHooks η} {depth : Nat} {m0 m m' : BenchVM η} {i : Nat}

/-- There is one VM after `i` pairs. -/
theorem Paired.unique (h : Paired hooks depth m0 i m) (h' : Paired hooks depth m0 i m') :
    m = m' := by
  induction h generalizing m' with
  | start =>
    cases h'
    rfl
  | pair _ hback hstep ih =>
    obtain _ | ⟨hpaired, hback', hstep'⟩ := h'
    obtain rfl := ih hpaired
    obtain rfl := Option.some.inj (hback.symm.trans hback')
    obtain ⟨a, ha, rfl⟩ := Option.map_eq_some_iff.mp hstep
    obtain ⟨a', ha', rfl⟩ := Option.map_eq_some_iff.mp hstep'
    rw [run_unique ha ha']

/-- Every number of pairs is between two pairs, if the steps have their length. -/
theorem Paired.steady {f : Moment η} {timeline : List (Moment η)} (h0 : Steady depth f timeline m0)
    (htaken : Taken (depth + 1) f) (hpos : 1 ≤ depth) (hle : depth ≤ 255)
    (hgood : depth = 1 ∨ depth % 9 ≠ 1) (h : Paired hooks depth m0 i m) :
    ∃ timeline, Steady depth f timeline m := by
  induction h with
  | start => exact ⟨timeline, h0⟩
  | pair _ hback hstep ih =>
    obtain ⟨timeline', hsteady⟩ := ih
    obtain ⟨u, w, timeline'', fuel, hback', hstep', hsteady'⟩ :=
      hsteady.pair hooks htaken hpos hle hgood
    obtain rfl := Option.some.inj (hback.symm.trans hback')
    obtain ⟨a, ha, rfl⟩ := Option.map_eq_some_iff.mp hstep
    obtain ⟨a', ha', rfl⟩ := Option.map_eq_some_iff.mp hstep'
    rw [run_unique ha ha']
    exact ⟨timeline'', hsteady'⟩

/-- The ring keeps its shape exactly at the depths whose steps have their length. -/
theorem Steady.staysInRing_iff {f : Moment η} {timeline : List (Moment η)}
    (h0 : Steady depth f timeline m0) (htaken : Taken (depth + 1) f) (hpos : 1 ≤ depth)
    (hle : depth ≤ 255) (n : Nat) :
    StaysInRing hooks depth n m0 ↔ depth = 1 ∨ depth % 9 ≠ 1 := by
  constructor
  · intro hstays
    by_contra hbad
    obtain ⟨hne, hjump⟩ := not_or.mp hbad
    obtain ⟨m', m'', fuel, hback, hstep, hindex⟩ :=
      h0.skipped_jump hooks htaken hle (not_not.mp hjump) hne
    have hafter := (hstays 0 (Nat.zero_le n) m0 .start).2.2.2 m'' (.pair .start hback hstep)
    omega
  · intro hgood i _ m hm
    obtain ⟨timeline', hsteady⟩ := hm.steady h0 htaken hpos hle hgood
    obtain ⟨m', m'', timeline'', fuel, hback, hstep, hsteady'⟩ :=
      hsteady.pair hooks htaken hpos hle hgood
    have hinside := hsteady.remembers.inside
      (List.ne_nil_of_length_pos (Nat.zero_lt_of_lt hsteady.long))
    have hindex := hsteady.index
    refine ⟨by omega, by omega, ⟨m'', .pair hm hback hstep⟩, fun w hw => ?_⟩
    rw [hw.unique (.pair hm hback hstep)]
    exact hsteady'.index

end Pairing

/-- The sanity run leaves the VM in front of its first pair. -/
theorem sanity_steady (hooks : IOHooks η) (e : η) (depth : Nat) (hpos : 1 ≤ depth)
    (hle : depth ≤ 255) :
    ∃ m timeline f, Sanity hooks e m ∧ Steady depth f timeline m ∧ Taken (depth + 1) f := by
  obtain ⟨m, timeline, hsanity, hbetween, hlen, htaken⟩ := sanity_ring hooks e
  have hi : timeline.length - 1 - depth < timeline.length := by omega
  have hf := List.getElem?_eq_getElem hi
  refine ⟨m, timeline, _, hsanity, ⟨hbetween, by omega, hf⟩, ?_⟩
  have h := htaken _ _ hf
  rwa [show 9219 - (timeline.length - 1 - depth) = depth + 1 by omega] at h

/-- **When the benchmark stays inside its ring.** There is one VM after the sanity run. At every
accepted depth, and for any number of iterations, each `do_back` from there on finds its target in
the ring and each pair leaves the index at 255, iff the depth is 1 or does not leave the remainder 1
when divided by 9, the length of the loop. -/
theorem backn_stays_in_ring_iff (hooks : IOHooks η) (e : η) (depth : Nat) (hpos : 1 ≤ depth)
    (hle : depth ≤ 255) (n : Nat) :
    ∃ m, (∀ m', Sanity hooks e m' ↔ m' = m) ∧
      (StaysInRing hooks depth n m ↔ depth = 1 ∨ depth % 9 ≠ 1) := by
  obtain ⟨m, timeline, f, hsanity, hsteady, htaken⟩ := sanity_steady hooks e depth hpos hle
  refine ⟨m, fun m' => ⟨fun h => sanity_unique h hsanity, ?_⟩,
    hsteady.staysInRing_iff htaken hpos hle n⟩
  rintro rfl
  exact hsanity

/-- The default depth, 200, and 5000 iterations. -/
theorem backn_stays_in_ring_default :
    ∃ m, Sanity (hostHooks (fun _ => 0) (fun _ => 0)) (0, 0) m ∧
      StaysInRing (hostHooks (fun _ => 0) (fun _ => 0)) 200 5000 m := by
  obtain ⟨m, hsanity, hstays⟩ := backn_stays_in_ring_iff (hostHooks (fun _ => 0) (fun _ => 0))
    (0, 0) 200 (by decide) (by decide) 5000
  exact ⟨m, (hsanity m).mpr rfl, hstays.mpr (.inr (by decide))⟩

/-- **Depth 100 leaves the ring's end** on the first pair. -/
theorem backn_leaves_ring :
    ∃ m, Sanity (hostHooks (fun _ => 0) (fun _ => 0)) (0, 0) m ∧
      ¬ StaysInRing (hostHooks (fun _ => 0) (fun _ => 0)) 100 5000 m := by
  obtain ⟨m, timeline, f, hsanity, hsteady, htaken⟩ :=
    sanity_steady (hostHooks (fun _ => 0) (fun _ => 0)) (0, 0) 100 (by decide) (by decide)
  refine ⟨m, hsanity, fun hstays => ?_⟩
  have h := (hsteady.staysInRing_iff htaken (by decide) (by decide) 5000).mp hstays
  omega

/-! ## The command -/

/-- How `cmd_benchmark_backn` ends. -/
inductive Outcome where
  /-- It refuses the depth, or prints no benchmark. -/
  | refused
  /-- It prints how long its rounds took, which decides its exit code. -/
  | timed

/-- `cmd_benchmark_backn`; `none` if it reads past the end of the ring, or `fuel` does not do for a
run. -/
def cmdBenchmarkBackn (stdin rng : Nat → UInt32) (fuel nIters depth : Nat) : Option Outcome :=
  if depth ≥ kBenchRingCap then some .refused
  else
    match start (imageOf workload) 1 (0, 0) with
    | none => some .refused
    | some m0 =>
      (run (hostHooks stdin rng) fuel m0).bind fun (sanity, m) =>
        if sanity ≠ .normal ∨ m.state.cycleCount ≠ 2 + 9 * kBenchmarkLoopCount.toUInt64 + 1 then
          some .refused
        else
          (rounds (doBack depth) (doStep (hostHooks stdin rng) fuel (UInt64.ofNat depth))
            (nIters + 1) m).map fun _ => .timed

theorem Paired.rounds {hooks : IOHooks η} {depth fuel i n : Nat} {m0 m m' : BenchVM η}
    (h : Paired hooks depth m0 i m)
    (hr : rounds (doBack depth) (doStep hooks fuel (UInt64.ofNat depth)) n m = some m') :
    Paired hooks depth m0 (i + n) m' := by
  induction n generalizing i m with
  | zero =>
    obtain rfl := Option.some.inj hr
    exact h
  | succ n ih =>
    obtain ⟨u, hu, hrest⟩ := Option.bind_eq_some_iff.mp hr
    obtain ⟨v, hback, hstep⟩ := Option.bind_eq_some_iff.mp hu
    rw [Nat.add_comm n, ← Nat.add_assoc]
    exact ih (h.pair hback hstep) hrest

/-- **Where it prints a benchmark, it has taken its pairs.** -/
theorem cmdBenchmarkBackn_paired {stdin rng : Nat → UInt32} {fuel nIters depth : Nat}
    (h : cmdBenchmarkBackn stdin rng fuel nIters depth = some .timed) :
    ∃ m m', Sanity (hostHooks stdin rng) (0, 0) m ∧
      Paired (hostHooks stdin rng) depth m (nIters + 1) m' := by
  unfold cmdBenchmarkBackn at h
  split at h
  · cases h
  split at h
  · cases h
  next m0 hstart =>
    obtain ⟨⟨sanity, m⟩, hrun, hm⟩ := Option.bind_eq_some_iff.mp h
    dsimp only at hm
    split at hm
    · cases hm
    next hsane =>
      obtain ⟨hnormal, hcycles⟩ := not_or.mp hsane
      obtain rfl := not_not.mp hnormal
      obtain ⟨m', hm', -⟩ := Option.map_eq_some_iff.mp hm
      have hstart' : Paired (hostHooks stdin rng) depth m 0 m := .start
      have hpairs := hstart'.rounds hm'
      rw [Nat.zero_add] at hpairs
      exact ⟨m, m', ⟨m0, fuel, hstart, hrun, not_not.mp hcycles⟩, hpairs⟩

end BackN

end Bench

end RetroVM

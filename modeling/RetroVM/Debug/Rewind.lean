import RetroVM.Debug.Turn

/-!
# Exact rewind (`main.cpp`, `cmd_debug_run`, `back`; `tests/debug.sh`)

The ring remembers the newest snapshots of the timeline, the timeline's delta logs are a chain, and
the pending log of the VM leads back to the newest snapshot (`Remembers`). A run keeps that turn by
turn, whatever stops it. Between lines of the REPL (`AtPrompt`) nothing is pending: a soft halt
drains the log before it stops, and the instruction of a natural halt writes nothing after its own
snapshot.

Results:
* `Remembers.turn`: one turn of a run.
* `AtPrompt.line`: one line of the REPL.
* **`rewind_is_exact`**.
-/

namespace RetroVM

open HistoryRing UndoLog

variable {η : Type}

/-! ## The invariant -/

/-- Consecutive snapshots: one cycle apart, the later log leading back to the earlier memory. -/
def NextMoment (a b : Moment η) : Prop :=
  LinkedFirings a b ∧ b.snapshot.cycleCount = a.snapshot.cycleCount + 1

/-- The snapshot shows the VM it was taken of, which was running. -/
def Genuine (f : Moment η) : Prop :=
  f.snapshot = { f.vm.snapshot with deltas := f.snapshot.deltas } ∧ f.snapshot.halted = .running

/-- Ring, timeline and pending log of a session, inside a run or between two. -/
structure Remembers (io : ReplMode η) (timeline : List (Moment η)) (m : Repl η) : Prop where
  holds   : Holds ringCap m.env.2.history (timeline.map (·.entry io))
  chain   : timeline.IsChain NextMoment
  genuine : ∀ f ∈ timeline, Genuine f
  latest  : ∃ f, timeline.getLast? = some f ∧
    rollback MemDelta.undo m.vm.deltas m.mem = f.vm.mem ∧
      m.state.cycleCount = f.snapshot.cycleCount

/-- `m` is in the state of snapshot `f`. -/
structure Stands (io : ReplMode η) (m : Repl η) (f : Moment η) : Prop where
  regs       : m.state.regs = f.vm.state.regs
  pc         : m.state.pc = f.vm.state.pc
  sp         : m.state.sp = f.vm.state.sp
  flags      : m.state.flags = f.vm.state.flags
  cycleCount : m.state.cycleCount = f.vm.state.cycleCount
  mem        : m.mem = f.vm.mem
  cursor     : io.cursor m.env.1 = io.cursor f.env.1

/-- A session between two lines of the REPL. -/
structure AtPrompt (io : ReplMode η) (timeline : List (Moment η)) (m : Repl η) : Prop
    extends Remembers io timeline m where
  settled  : m.vm.deltas = []
  interval : m.state.snapInterval = 1
  timer    : m.state.snapTimer = 1
  standing : m.state.halted.natural ∨ m.state.halted.resumable ∧
    ∃ f, timeline.getLast? = some f ∧ Stands io m f

section Invariant

variable {io : ReplMode η} {timeline : List (Moment η)} {m m' : Repl η}

theorem Remembers.congr (h : Remembers io timeline m)
    (hring : m'.env.2.history = m.env.2.history)
    (hroll : rollback MemDelta.undo m'.vm.deltas m'.mem = rollback MemDelta.undo m.vm.deltas m.mem)
    (hcycle : m'.state.cycleCount = m.state.cycleCount) : Remembers io timeline m' where
  holds := hring ▸ h.holds
  chain := h.chain
  genuine := h.genuine
  latest := by
    rw [hroll, hcycle]
    exact h.latest

/-! ## One turn -/

theorem settle_history (d : CmdDebug) (cycle : UInt64) : (d.settle cycle).history = d.history := by
  unfold CmdDebug.settle
  split <;> rfl

/-- The snapshot of a fetch is the next one of the timeline, and the ring remembers it. -/
theorem Remembers.fired (h : Remembers io timeline m) (hrun : m.state.halted = .running)
    (hdebug : m'.env.2 = m.pushed io) (hdeltas : m'.vm.deltas = []) (hmem : m'.mem = m.mem)
    (hcycle : m'.state.cycleCount = m.state.cycleCount + 1) :
    Remembers io (timeline ++ [m.firing]) m' := by
  obtain ⟨f, hlast, hroll, hc⟩ := h.latest
  refine ⟨?_, ?_, ?_, m.firing, List.getLast?_concat, ?_, hcycle⟩
  · have hinside := h.holds.inside
    rw [← settle_history m.env.2 (m.state.cycleCount + 1)] at hinside
    rw [hdebug, Machine.pushed, history_push hinside, settle_history, List.map_append]
    exact h.holds.push _
  · refine List.isChain_append.mpr ⟨h.chain, List.isChain_singleton _, ?_⟩
    intro a ha b hb
    cases hb
    obtain rfl : f = a := Option.some.inj (hlast.symm.trans ha)
    exact ⟨hroll, congrArg (· + 1) hc⟩
  · intro g hg
    rcases List.mem_append.mp hg with hg | hg
    · exact h.genuine g hg
    · obtain rfl := List.mem_singleton.mp hg
      exact ⟨rfl, hrun⟩
  · rw [hdeltas, hmem]
    rfl

/-- Dispatching keeps what is remembered. -/
theorem Remembers.retired (h : Remembers io timeline m) (instr : UInt32) :
    Remembers io timeline (landed (m.retire (debugEnv io) instr)) :=
  h.congr (congrArg CmdDebug.history (retire_debug io instr m))
    (retire_rollback (debugEnv io) instr m) (retire_frame (debugEnv io) instr m).cycleCount

/-- **One turn of a run.** It adds one snapshot to the timeline; if it ends the run with a return,
the session is between two lines. -/
theorem Remembers.turn (h : Remembers io timeline m) (hs : Stepping m) :
    Remembers io (timeline ++ [m.firing]) (landed (m.cycle (debugEnv io))) ∧
      ∀ x r, m.cycle (debugEnv io) = .error x → x.stop = .returned r →
        AtPrompt io (timeline ++ [m.firing]) x.machine := by
  have hevery := cycle_every (debugEnv io) hs.interval hs.timer
  cases hp : m.env.2.pause (m.state.cycleCount + 1) m.state.pc with
  | some r =>
    have hcycle := debug_cycle_halt io hs hp
    have hkeep : Remembers io (timeline ++ [m.firing]) (landed (m.cycle (debugEnv io))) := by
      rw [hcycle]
      exact h.fired hs.running rfl rfl rfl rfl
    refine ⟨hkeep, fun x r' hx _ => ?_⟩
    rw [hx] at hkeep hevery
    rw [hcycle] at hx
    cases hx
    refine ⟨hkeep, rfl, hevery.1, hevery.2, .inr ⟨?_, m.firing, List.getLast?_concat, ?_⟩⟩
    · exact .inr (pause_ne_running hp)
    · exact ⟨rfl, rfl, rfl, rfl, rfl, rfl, rfl⟩
  | none =>
    have hcycle := debug_cycle io hs hp
    have hkeep : Remembers io (timeline ++ [m.firing]) (landed (m.cycle (debugEnv io))) := by
      rw [hcycle]
      refine Remembers.retired ?_ _
      exact h.fired hs.running rfl rfl rfl rfl
    refine ⟨hkeep, fun x r hx hr => ?_⟩
    rw [hx] at hkeep hevery
    rw [hcycle] at hx
    rcases retire_exit hx with ⟨e, he⟩ | ⟨r', -, hhalt, hnat, hdeltas, -⟩
    · cases hr.symm.trans he
    · exact ⟨hkeep, hdeltas, hevery.1, hevery.2, .inl (hhalt ▸ hnat)⟩

/-- Any number of turns. -/
theorem Remembers.after (h : Remembers io timeline m) (hs : Stepping m) {n : Nat}
    (hn : StepLoop.after (Machine.cycle (debugEnv io)) n m = .ok m') :
    ∃ new, firings m'.history = firings m.history ++ new ∧ Remembers io (timeline ++ new) m' ∧
      Stepping m' := by
  induction n generalizing m' with
  | zero =>
    obtain rfl : m = m' := by simpa using hn
    exact ⟨[], by simp, by simpa using h, hs⟩
  | succ n ih =>
    obtain ⟨u, hu, hstep⟩ := StepLoop.after_ok_pred hn
    obtain ⟨new, hfire, hkeep, hs'⟩ := ih hu
    have hfire' := debug_firings io hs'
    obtain ⟨hkeep', -⟩ := hkeep.turn hs'
    rw [hstep] at hfire' hkeep'
    refine ⟨new ++ [u.firing], ?_, ?_, hs'.next hstep⟩
    · rw [← List.append_assoc, ← hfire]
      exact hfire'
    · rw [← List.append_assoc]
      exact hkeep'

/-- **A whole run**, from any machine a run can go on from. -/
theorem Remembers.run (h : Remembers io timeline m) (hs : Stepping m) {fuel : Nat}
    (hr : runFrom io fuel m = some (.prompt m')) :
    AtPrompt io (timeline ++ firedSince m m') m' ∧ firedSince m m' ≠ [] := by
  obtain ⟨n, u, x, r, hu, hs', hlast, hstop, rfl⟩ := runFrom_last io hs hr
  obtain ⟨new, hfire, hkeep, -⟩ := h.after hs hu
  obtain ⟨-, hprompt⟩ := hkeep.turn hs'
  have hsince : firedSince m x.machine = new ++ [u.firing] := by
    have hfire' := debug_firings io hs'
    rw [hlast, landed_error, hfire, List.append_assoc] at hfire'
    unfold firedSince
    rw [hfire', List.drop_left]
  rw [hsince, ← List.append_assoc]
  exact ⟨hprompt x r hlast hstop, List.append_ne_nil_of_right_ne_nil _ (List.cons_ne_nil _ _)⟩

/-! ## One line of the REPL -/

/-- A session that goes on has a machine a run goes on from. -/
theorem AtPrompt.resumed (h : AtPrompt io timeline m) (target : UInt64) :
    Remembers io timeline ((m.setHalted .running).setTarget target) ∧
      Stepping ((m.setHalted .running).setTarget target) :=
  ⟨h.toRemembers.congr rfl rfl rfl, rfl, h.interval, h.timer⟩

/-- The logs of the last `n` snapshots lead from the current memory to that of the one before
them. -/
theorem AtPrompt.undone (h : AtPrompt io timeline m) {n : Nat} (hn : n < timeline.length)
    {f : Moment η} (hf : timeline[timeline.length - 1 - n]? = some f) :
    unwind MemDelta.undo (fun f : Moment η => f.snapshot.deltas)
      (timeline.drop (timeline.length - n)) m.mem = f.vm.mem := by
  obtain ⟨last, hlast, hroll, -⟩ := h.latest
  have hcur : m.mem = last.vm.mem := by
    rw [h.settled] at hroll
    exact hroll
  rw [hcur]
  exact unwind_chain_back MemDelta.undo (fun f : Moment η => f.snapshot.deltas)
    (fun f => f.vm.mem) (h.chain.imp fun a b hab => hab.1) hn hf hlast

/-- What `back` does at a prompt: the VM is put back to the snapshot `n` entries earlier. -/
theorem AtPrompt.backTo_eq (h : AtPrompt io timeline m) {n : Nat} (hpos : 1 ≤ n)
    (hn : n ≤ m.env.2.historyIndex) :
    ∃ f, timeline[timeline.length - 1 - n]? = some f ∧
      backTo io n m = { m with
        vm := {
          mem := f.vm.mem
          state := { m.state with
            cycleCount := f.snapshot.cycleCount
            regs := f.snapshot.regs
            pc := f.snapshot.pc
            sp := f.snapshot.sp
            flags := f.snapshot.flags
            halted := f.snapshot.halted }
          deltas := [] }
        env := (io.rewind (io.cursor f.env.1) m.env.1,
          { m.env.2 with historyIndex := m.env.2.historyIndex - n }) } := by
  have hlt : m.env.2.historyIndex < (timeline.map (·.entry io)).length := h.holds.index_lt
  rw [List.length_map] at hlt
  have hi : timeline.length - 1 - n < timeline.length := by omega
  have hget := h.holds.get hn
  rw [List.length_map, List.getElem?_map, List.getElem?_eq_getElem hi] at hget
  have hsince := h.holds.since hn
  rw [List.length_map, ← List.map_drop] at hsince
  have hmem := h.undone (by omega) (List.getElem?_eq_getElem hi)
  refine ⟨timeline[timeline.length - 1 - n], List.getElem?_eq_getElem hi, ?_⟩
  have hslots : m.env.2.history.slots = m.env.2.ring := rfl
  have hindex : m.env.2.history.index = m.env.2.historyIndex := rfl
  rw [hslots, hindex] at hget hsince
  unfold backTo
  simp only [if_neg (by omega : ¬ n = 0), if_neg (by omega : ¬ n > m.env.2.historyIndex), hget,
    Option.map_some, hsince, List.map_map, unwind_eq]
  have hcores : unwind MemDelta.undo (fun s : Snapshot => s.deltas)
      ((timeline.drop (timeline.length - n)).map
        ((fun rs : ReplSnapshot => rs.core) ∘ fun f : Moment η => f.entry io)) m.mem =
        (timeline[timeline.length - 1 - n]).vm.mem :=
    (unwind_firings _ _).trans hmem
  rw [hcores, h.settled]
  rfl

/-- After `back` the session stands at the snapshot it went back to, on the timeline up to it. -/
theorem AtPrompt.back (h : AtPrompt io timeline m) {n : Nat} (hpos : 1 ≤ n)
    (hn : n ≤ m.env.2.historyIndex) :
    ∃ f, timeline[timeline.length - 1 - n]? = some f ∧ Stands io (backTo io n m) f ∧
      AtPrompt io (timeline.take (timeline.length - n)) (backTo io n m) := by
  obtain ⟨f, hf, hback⟩ := h.backTo_eq hpos hn
  have hlt : m.env.2.historyIndex < (timeline.map (·.entry io)).length := h.holds.index_lt
  rw [List.length_map] at hlt
  obtain ⟨hshown, hrun⟩ := h.genuine f (List.mem_of_getElem? hf)
  have hlast := getLast?_take_back (by omega) hf
  have hstands : Stands io (backTo io n m) f := by
    rw [hback]
    exact ⟨congrArg (·.regs) hshown, congrArg (·.pc) hshown, congrArg (·.sp) hshown,
      congrArg (·.flags) hshown, congrArg (·.cycleCount) hshown, rfl,
      io.cursor_rewind f.env.1 m.env.1⟩
  refine ⟨f, hf, hstands, ?_⟩
  have hholds := h.holds.back (n := n) hn
  rw [List.length_map, ← List.map_take] at hholds
  rw [hback] at hstands ⊢
  refine ⟨⟨hholds, h.chain.take _, fun g hg => h.genuine g (List.mem_of_mem_take hg), f, hlast,
    rfl, rfl⟩, rfl, h.interval, h.timer, .inr ⟨.inl hrun, f, hlast, hstands⟩⟩

/-- A line that changes the breakpoints. -/
theorem AtPrompt.armed (h : AtPrompt io timeline m) {d : CmdDebug}
    (hd : d.history = m.env.2.history) : AtPrompt io timeline (m.setDebug d) := by
  refine ⟨h.toRemembers.congr hd rfl rfl, h.settled, h.interval, h.timer, ?_⟩
  rcases h.standing with hnat | ⟨hres, f, hf, hstands⟩
  · exact .inl hnat
  · exact .inr ⟨hres, f, hf, { hstands with }⟩

/-- **One line of the REPL** leads from prompt to prompt. -/
theorem AtPrompt.line (h : AtPrompt io timeline m) {fuel : Nat} {c : Command}
    (hm : command io fuel m c = some (.prompt m')) :
    AtPrompt io (timelineAfter timeline m m' c) m' := by
  cases command_cases hm with
  | kept hd htimeline =>
    rw [htimeline]
    exact h.armed hd
  | ran ht _ hr =>
    rw [timelineAfter_run ht]
    obtain ⟨hkeep, hs⟩ := h.resumed _
    exact (hkeep.run hs hr).1
  | @rewound n hc hpos hn =>
    subst hc
    obtain ⟨f, -, -, hprompt⟩ := h.back hpos hn
    unfold timelineAfter
    simp only [if_neg (Nat.not_lt.mpr hn)]
    exact hprompt

end Invariant

/-- The first prompt. -/
theorem atPrompt_start {io : ReplMode η} {bytes : List UInt8} {e : η} {m : Repl η}
    (h : debugStart io bytes e = some m) : AtPrompt io [m.baseline] m := by
  obtain ⟨vm, hb, rfl⟩ := debugStart_eq_some h
  obtain rfl := boot_eq_some hb
  have hstands : ∀ g : Repl η, Stands io g g.baseline :=
    fun g => ⟨rfl, rfl, rfl, rfl, rfl, rfl, rfl⟩
  refine ⟨⟨Holds.singleton (by decide) _, List.isChain_singleton _, ?_, _, rfl, rfl, rfl⟩, rfl,
    rfl, rfl, .inr ⟨.inl rfl, _, rfl, hstands _⟩⟩
  intro f hf
  obtain rfl := List.mem_singleton.mp hf
  exact ⟨rfl, rfl⟩

/-- **Every prompt of every session.** -/
theorem reached_atPrompt {io : ReplMode η} {bytes : List UInt8} {e : η}
    {issued : Repl η → Command → Prop} {timeline : List (Moment η)} {lastRun : Nat} {m : Repl η}
    (h : Reached io bytes e issued timeline lastRun m) : AtPrompt io timeline m := by
  induction h with
  | start hstart => exact atPrompt_start hstart
  | command _ _ hm ih => exact ih.line hm

/-! ## Whole sessions -/

/-- Along a timeline the cycles count up to that of the last snapshot. -/
theorem chain_cycle {timeline : List (Moment η)} (h : timeline.IsChain NextMoment) {last : Moment η}
    (hlast : timeline.getLast? = some last) (n : Nat) (hn : n < timeline.length) :
    (timeline[timeline.length - 1 - n]).snapshot.cycleCount + UInt64.ofNat n =
      last.snapshot.cycleCount := by
  induction n with
  | zero =>
    rw [List.getLast?_eq_getElem?, List.getElem?_eq_getElem (by omega)] at hlast
    have hat := congrArg (fun f : Moment η => f.snapshot.cycleCount) (Option.some.inj hlast)
    exact (UInt64.add_zero _).trans hat
  | succ n ih =>
    have hnext := (h.getElem (timeline.length - 1 - (n + 1)) (by omega)).2
    simp only [show timeline.length - 1 - (n + 1) + 1 = timeline.length - 1 - n by omega] at hnext
    rw [← ih (by omega), hnext, UInt64.ofNat_add, UInt64.add_assoc, UInt64.add_comm 1]
    rfl

/-- `back n` takes `n` cycles back. -/
theorem AtPrompt.back_cycle {io : ReplMode η} {timeline : List (Moment η)} {m : Repl η}
    (h : AtPrompt io timeline m) {n : Nat} (hpos : 1 ≤ n) (hn : n ≤ m.env.2.historyIndex) :
    (backTo io n m).state.cycleCount + UInt64.ofNat n = m.state.cycleCount := by
  obtain ⟨last, hlast, -, hcycle⟩ := h.latest
  obtain ⟨f, hf, hback⟩ := h.backTo_eq hpos hn
  obtain ⟨hi, rfl⟩ := List.getElem?_eq_some_iff.mp hf
  have hlt : m.env.2.historyIndex < (timeline.map (·.entry io)).length := h.holds.index_lt
  rw [List.length_map] at hlt
  rw [hcycle, ← chain_cycle h.chain hlast n (by omega), hback]

/-- **Exact rewind.** At every prompt of every session, in either mode, after any lines:

* the history index is inside the ring, and the ring within its capacity;
* the slots up to it carry consecutive cycles, ending at the VM's;
* `back n` puts registers, pc, sp, flags, cycle, memory and cursor to what they were when the
  snapshot `n` entries earlier on the timeline was taken, if the ring goes back that far, and
  changes nothing if it does not. -/
theorem rewind_is_exact (io : ReplMode η) (bytes : List UInt8) (e : η) (timeline : List (Moment η))
    (lastRun : Nat) (m : Repl η) (h : Reached io bytes e AnyLine timeline lastRun m) :
    m.env.2.historyIndex < m.env.2.ring.length ∧ m.env.2.ring.length ≤ 256 ∧
      (∀ i rs, i ≤ m.env.2.historyIndex → m.env.2.ring[i]? = some rs →
        rs.core.cycleCount + UInt64.ofNat (m.env.2.historyIndex - i) = m.state.cycleCount) ∧
      ∀ (n : UInt64) (fuel : Nat),
        (1 ≤ n.toNat → n.toNat ≤ m.env.2.historyIndex → ∃ f m',
          timeline[timeline.length - 1 - n.toNat]? = some f ∧
            command io fuel m (.back n) = some (.prompt m') ∧ Stands io m' f) ∧
        (n.toNat > m.env.2.historyIndex → command io fuel m (.back n) = some (.prompt m)) := by
  have hprompt := reached_atPrompt h
  have hholds := hprompt.holds
  refine ⟨hholds.inside, hholds.bounded, fun i rs hi hrs => ?_, fun n fuel => ⟨fun h1 hn => ?_,
    fun hn => ?_⟩⟩
  · obtain ⟨last, hlast, -, hcycle⟩ := hprompt.latest
    have hlt := hholds.index_lt
    have hindex : m.env.2.history.index = m.env.2.historyIndex := rfl
    have hslots : m.env.2.history.slots = m.env.2.ring := rfl
    rw [List.length_map, hindex] at hlt
    have hget := hholds.get (n := m.env.2.historyIndex - i) (Nat.sub_le _ _)
    rw [hindex, hslots, Nat.sub_sub_self hi, hrs, List.length_map, List.getElem?_map,
      List.getElem?_eq_getElem (by omega)] at hget
    rw [hcycle, ← chain_cycle hprompt.chain hlast (m.env.2.historyIndex - i) (by omega),
      Option.some.inj hget]
    rfl
  · obtain ⟨f, hf, hstands, -⟩ := hprompt.back h1 hn
    exact ⟨f, _, hf, rfl, hstands⟩
  · exact congrArg (fun m => some (Reply.prompt m)) (backTo_refused io m (.inr hn))

/-- `LI R0, 7; STORE R0, 0x100; IN R1; HALT` in fresh mode: three cycles on, `back 2`. -/
theorem rewind_is_exact_fresh :
    let io := freshMode (fun _ => 5) (fun _ => 0)
    ∃ (timeline : List (Moment (Nat × Nat))) (m m' : Repl (Nat × Nat)) (f : Moment (Nat × Nat)),
      m.env.2.historyIndex = 3 ∧ timeline[timeline.length - 1 - 2]? = some f ∧
        command io 0 m (.back 2) = some (.prompt m') ∧ Stands io m' f := by
  intro io
  let bytes := imageOf [encode 0x0B 0 0 7, encode 0x02 0 0 0x100, encode 0x09 1 0 0, 0]
  have hrun : ((debugStart io bytes (0, 0)).bind fun m => session io 4 m [.step 3]).map
      (fun m => m.env.2.historyIndex) = some 3 := by
    decide +kernel
  obtain ⟨m, hm, hindex⟩ := Option.map_eq_some_iff.mp hrun
  obtain ⟨m0, hm0, hsession⟩ := Option.bind_eq_some_iff.mp hm
  obtain ⟨timeline, lastRun, hreached⟩ := reached_session (.start hm0)
    (fun _ _ _ => trivial) hsession
  obtain ⟨-, -, -, hback⟩ := rewind_is_exact io bytes (0, 0) timeline lastRun m hreached
  obtain ⟨f, m', hf, hcommand, hstands⟩ := (hback 2 0).1 (by decide) (by rw [hindex]; decide)
  exact ⟨timeline, m, m', f, hindex, hf, hcommand, hstands⟩

end RetroVM

import RetroVM.Debug.Breakpoints

/-!
# Scrubbing (`main.cpp`, `cmd_debug_run`, `back`)

`back` moves a history index and leaves the ring alone, so what it gave up is still there for the
next `back`: two lines that go back are one that goes back as far as both, wherever the session
stands. And a run only appends to the ring, so that what it did can be taken back from where it
stopped, if the ring still holds it: the session stands where it stood before the run.

Results:
* `AtPrompt.backTo_add`: two rewinds are one.
* **`backs_are_one_back`**, **`run_taken_back`**.
-/

namespace RetroVM

open HistoryRing UndoLog

variable {η : Type}

/-! ## Going back twice -/

/-- Two sessions nothing can tell apart: same VM, ring, breakpoints and history, cursors in the same
place. -/
structure SameSpot (io : ReplMode η) (m m' : Repl η) : Prop where
  vm      : m.vm = m'.vm
  debug   : m.env.2 = m'.env.2
  cursor  : io.cursor m.env.1 = io.cursor m'.env.1
  history : m.history = m'.history

section Back

variable {io : ReplMode η} {timeline : List (Moment η)} {m : Repl η}

theorem SameSpot.rfl' (m : Repl η) : SameSpot io m m := ⟨rfl, rfl, rfl, rfl⟩

theorem SameSpot.trans {a b c : Repl η} (h : SameSpot io a b) (h' : SameSpot io b c) :
    SameSpot io a c :=
  ⟨h.vm.trans h'.vm, h.debug.trans h'.debug, h.cursor.trans h'.cursor, h.history.trans h'.history⟩

theorem AtPrompt.backTo_index (h : AtPrompt io timeline m) {n : Nat}
    (hn : n ≤ m.env.2.historyIndex) :
    (backTo io n m).env.2.historyIndex = m.env.2.historyIndex - n := by
  by_cases h0 : n = 0
  · rw [backTo_refused io m (.inl h0), h0, Nat.sub_zero]
  · obtain ⟨f, -, hback⟩ := h.backTo_eq (Nat.pos_of_ne_zero h0) hn
    rw [hback]

/-- **Two rewinds are one.** -/
theorem AtPrompt.backTo_add (h : AtPrompt io timeline m) {a b : Nat}
    (hab : a + b ≤ m.env.2.historyIndex) :
    SameSpot io (backTo io b (backTo io a m)) (backTo io (a + b) m) := by
  by_cases ha : a = 0
  · rw [ha, backTo_refused io m (.inl rfl), Nat.zero_add]
    exact .rfl' _
  by_cases hb : b = 0
  · rw [hb, backTo_refused io _ (.inl rfl), Nat.add_zero]
    exact .rfl' _
  have hle : a ≤ m.env.2.historyIndex := Nat.le_trans (Nat.le_add_right a b) hab
  obtain ⟨f, hf, -, hprompt⟩ := h.back (Nat.pos_of_ne_zero ha) hle
  obtain ⟨f', hf', hfirst⟩ := h.backTo_eq (Nat.pos_of_ne_zero ha) hle
  have hrest : b ≤ (backTo io a m).env.2.historyIndex := by
    rw [h.backTo_index hle]
    omega
  obtain ⟨g, hg, hsecond⟩ := hprompt.backTo_eq (Nat.pos_of_ne_zero hb) hrest
  obtain ⟨g', hg', hboth⟩ := h.backTo_eq (Nat.lt_of_lt_of_le (Nat.pos_of_ne_zero ha)
    (Nat.le_add_right a b)) hab
  -- both come to the same entry of the timeline
  obtain rfl : g = g' := by
    have hlt : m.env.2.historyIndex < (timeline.map (·.entry io)).length := h.holds.index_lt
    rw [List.length_map] at hlt
    rw [List.length_take, Nat.min_eq_left (Nat.sub_le _ _), List.getElem?_take_of_lt (by omega),
      show timeline.length - a - 1 - b = timeline.length - 1 - (a + b) by omega, hg'] at hg
    exact (Option.some.inj hg).symm
  rw [hsecond, hboth, hfirst]
  exact ⟨rfl, by simp only [Nat.sub_sub], by rw [io.cursor_rewind, io.cursor_rewind], rfl⟩

/-- The history index after lines that go back: a line that asks for more than there is does
nothing. -/
def indexAfter (index : Nat) : List UInt64 → Nat
  | [] => index
  | n :: ns => indexAfter (if n.toNat ≤ index then index - n.toNat else index) ns

theorem indexAfter_le (index : Nat) (ns : List UInt64) : indexAfter index ns ≤ index := by
  induction ns generalizing index with
  | nil => exact Nat.le_refl _
  | cons n ns ih =>
    refine Nat.le_trans (ih _) ?_
    split
    · exact Nat.sub_le _ _
    · exact Nat.le_refl _

/-- One line of a script that goes back. -/
theorem session_back (io : ReplMode η) (fuel : Nat) (m : Repl η) (n : UInt64) (cs : List Command) :
    session io fuel m (.back n :: cs) = session io fuel (backTo io n.toNat m) cs := rfl

/-- A script of lines that go back, from any prompt. -/
theorem AtPrompt.session_backs (h : AtPrompt io timeline m) (fuel : Nat) (ns : List UInt64) :
    ∃ m', session io fuel m (ns.map .back) = some m' ∧
      m'.env.2.historyIndex = indexAfter m.env.2.historyIndex ns ∧
      SameSpot io m'
        (backTo io (m.env.2.historyIndex - indexAfter m.env.2.historyIndex ns) m) := by
  induction ns generalizing m timeline with
  | nil =>
    refine ⟨m, rfl, rfl, ?_⟩
    rw [indexAfter, Nat.sub_self, backTo_refused io m (.inl rfl)]
    exact .rfl' m
  | cons n ns ih =>
    rw [List.map_cons, session_back, indexAfter]
    by_cases hn : n.toNat ≤ m.env.2.historyIndex
    · rw [if_pos hn]
      have hprompt : ∃ timeline', AtPrompt io timeline' (backTo io n.toNat m) := by
        by_cases h0 : n.toNat = 0
        · exact ⟨timeline, by rwa [backTo_refused io m (.inl h0)]⟩
        · obtain ⟨-, -, -, hprompt⟩ := h.back (Nat.pos_of_ne_zero h0) hn
          exact ⟨_, hprompt⟩
      obtain ⟨timeline', hprompt⟩ := hprompt
      obtain ⟨m', hm', hindex, hspot⟩ := ih hprompt
      rw [h.backTo_index hn] at hindex hspot
      refine ⟨m', hm', hindex, ?_⟩
      have hle := indexAfter_le (m.env.2.historyIndex - n.toNat) ns
      have hadd := h.backTo_add (a := n.toNat)
        (b := m.env.2.historyIndex - n.toNat - indexAfter (m.env.2.historyIndex - n.toNat) ns)
        (by omega)
      rw [show n.toNat + (m.env.2.historyIndex - n.toNat -
        indexAfter (m.env.2.historyIndex - n.toNat) ns) =
          m.env.2.historyIndex - indexAfter (m.env.2.historyIndex - n.toNat) ns by omega] at hadd
      exact hspot.trans hadd
    · rw [if_neg hn, backTo_refused io m (.inr (Nat.lt_of_not_le hn))]
      exact ih h

end Back

/-- **Lines that go back are one line that goes back.** From any prompt of any session, in either
mode, any script of `back` lines comes to where a single `back` comes to, of the sum of those that
were not refused; a line is refused when it asks for more than the earlier ones left. -/
theorem backs_are_one_back (io : ReplMode η) (bytes : List UInt8) (e : η)
    (timeline : List (Moment η)) (lastRun : Nat) (m : Repl η)
    (h : Reached io bytes e AnyLine timeline lastRun m) (ns : List UInt64) (fuel : Nat) :
    let rest := indexAfter m.env.2.historyIndex ns
    ∃ m' m'', session io fuel m (ns.map .back) = some m' ∧ m'.env.2.historyIndex = rest ∧
      command io fuel m (.back (UInt64.ofNat (m.env.2.historyIndex - rest))) =
        some (.prompt m'') ∧ SameSpot io m' m'' := by
  intro rest
  have hprompt := reached_atPrompt h
  obtain ⟨m', hm', hindex, hspot⟩ := hprompt.session_backs fuel ns
  have hring : m.env.2.historyIndex < 256 :=
    Nat.lt_of_lt_of_le hprompt.holds.inside hprompt.holds.bounded
  have hsmall : (UInt64.ofNat (m.env.2.historyIndex - rest)).toNat =
      m.env.2.historyIndex - rest := by
    rw [UInt64.toNat_ofNat', Nat.mod_eq_of_lt (by omega)]
  refine ⟨m', _, hm', hindex, rfl, ?_⟩
  rw [hsmall]
  exact hspot

/-- `LI R0, 7; STORE R0, 0x100; IN R1; HALT`. -/
def storeThenIn : List UInt8 :=
  imageOf [encode 0x0B 0 0 7, encode 0x02 0 0 0x100, encode 0x09 1 0 0, 0]

/-- Three cycles on, `back 1; back 5; back 1` is `back 2`. -/
theorem backs_are_one_back_fresh :
    let io := freshMode (fun _ => 5) (fun _ => 0)
    ∃ m m' m'' : Repl (Nat × Nat), m.env.2.historyIndex = 3 ∧
      session io 0 m [.back 1, .back 5, .back 1] = some m' ∧
      command io 0 m (.back 2) = some (.prompt m'') ∧ SameSpot io m' m'' := by
  intro io
  have hrun : ((debugStart io storeThenIn (0, 0)).bind fun m => session io 4 m [.step 3]).map
      (fun m => m.env.2.historyIndex) = some 3 := by
    decide +kernel
  obtain ⟨m, hm, hindex⟩ := Option.map_eq_some_iff.mp hrun
  obtain ⟨m0, hm0, hsession⟩ := Option.bind_eq_some_iff.mp hm
  obtain ⟨timeline, lastRun, hreached⟩ := reached_session (.start hm0)
    (fun _ _ _ => trivial) hsession
  obtain ⟨m', m'', hm', -, hm'', hspot⟩ :=
    backs_are_one_back io storeThenIn (0, 0) timeline lastRun m hreached [1, 5, 1] 0
  rw [hindex] at hm''
  exact ⟨m, m', m'', hindex, hm', hm'', hspot⟩

/-! ## Taking a run back -/

section Run

variable {io : ReplMode η} {timeline : List (Moment η)} {m m' : Repl η}

/-- A turn pushes its snapshot, and does nothing else to the ring. -/
theorem turn_history (io : ReplMode η) (hs : Stepping m) :
    (landed (m.cycle (debugEnv io))).env.2.history = (m.pushed io).history := by
  cases hp : m.env.2.pause (m.state.cycleCount + 1) m.state.pc with
  | some r => rw [debug_cycle_halt io hs hp, landed_error]
  | none =>
    rw [debug_cycle io hs hp, retire_debug]

/-- The ring goes a cycle further back after a turn, until it is full. -/
theorem turn_index (h : Remembers io timeline m) (hs : Stepping m) :
    min (m.env.2.historyIndex + 1) 255 ≤
      (landed (m.cycle (debugEnv io))).env.2.historyIndex := by
  have hinside := h.holds.inside
  rw [← settle_history m.env.2 (m.state.cycleCount + 1)] at hinside
  have hpush := turn_history io hs
  rw [Machine.pushed, history_push hinside, settle_history] at hpush
  have hindex := congrArg History.index hpush
  change (landed (m.cycle (debugEnv io))).env.2.historyIndex = _ at hindex
  have hlen := h.holds.length_recent
  have hself : m.env.2.history.index = m.env.2.historyIndex := rfl
  rw [hself] at hlen
  rw [hindex]
  unfold History.push
  simp only [hself, List.length_append, hlen, List.length_singleton]
  split
  · next hfull =>
    change _ ≤ m.env.2.historyIndex
    have hcap : ringCap = 256 := rfl
    omega
  · exact Nat.min_le_left _ _

/-- After any number of turns it goes back to where they began, or as far as it can. -/
theorem after_index (h : Remembers io timeline m) (hs : Stepping m) {n : Nat}
    (hn : StepLoop.after (Machine.cycle (debugEnv io)) n m = .ok m') :
    min (firedSince m m').length 255 ≤ m'.env.2.historyIndex := by
  induction n generalizing m' with
  | zero =>
    obtain rfl : m = m' := by simpa using hn
    rw [firedSince_self]
    exact Nat.zero_le _
  | succ n ih =>
    obtain ⟨u, hu, hstep⟩ := StepLoop.after_ok_pred hn
    obtain ⟨new, -, hkeep, hs'⟩ := h.after hs hu
    have hturn := turn_index hkeep hs'
    have hfired := congrArg List.length (debug_firings io hs')
    rw [hstep, landed_ok] at hturn hfired
    rw [List.length_append, List.length_singleton] at hfired
    have hbefore := ih hu
    unfold firedSince at hbefore ⊢
    rw [List.length_drop] at hbefore ⊢
    omega

/-- So a run of up to 255 cycles is all in the ring when it stops. -/
theorem Remembers.run_index (h : Remembers io timeline m) (hs : Stepping m) {fuel : Nat}
    (hr : runFrom io fuel m = some (.prompt m')) :
    min (firedSince m m').length 255 ≤ m'.env.2.historyIndex := by
  obtain ⟨n, u, x, r, hu, hs', hlast, hstop, rfl⟩ := runFrom_last io hs hr
  obtain ⟨new, -, hkeep, -⟩ := h.after hs hu
  have hturn := turn_index hkeep hs'
  have hfired := congrArg List.length (debug_firings io hs')
  rw [hlast, landed_error] at hturn hfired
  rw [List.length_append, List.length_singleton] at hfired
  have hbefore := after_index h hs hu
  unfold firedSince at hbefore ⊢
  rw [List.length_drop] at hbefore ⊢
  omega

end Run

/-- **A run can be taken back.** From any prompt of any session at which the VM is not at a natural
halt, in either mode: let a line run the VM, for `k` cycles, to whatever stops it. If `k` is at most
255, `back k` leads to where the run began: the same registers, pc, sp, flags, cycle, memory and
cursor, and the same breakpoints. -/
theorem run_taken_back (io : ReplMode η) (bytes : List UInt8) (e : η) (timeline : List (Moment η))
    (lastRun : Nat) (m : Repl η) (h : Reached io bytes e AnyLine timeline lastRun m)
    (hgoes : ¬ m.state.halted.natural) (c : Command) (t : UInt64) (hc : c.RunsTo m t) (fuel : Nat)
    (m' : Repl η) (hm : command io fuel m c = some (.prompt m')) :
    let k := (firedSince m m').length
    1 ≤ k ∧ m'.state.cycleCount = m.state.cycleCount + UInt64.ofNat k ∧
      (k ≤ 255 → ∃ m'', command io 0 m' (.back (UInt64.ofNat k)) = some (.prompt m'') ∧
        m''.state.cpu = m.state.cpu ∧ m''.state.sp = m.state.sp ∧
        m''.state.cycleCount = m.state.cycleCount ∧ m''.mem = m.mem ∧
        io.cursor m''.env.1 = io.cursor m.env.1 ∧
        m''.env.2.breakpoints = m.env.2.breakpoints) := by
  intro k
  have hprompt := reached_atPrompt h
  obtain ⟨hresumable, f, hf, hstands⟩ := hprompt.standing.resolve_left hgoes
  have hrun := hm
  rw [command_resumed hc (debugResume_resumable hresumable)] at hrun
  obtain ⟨hkeep, hs⟩ := hprompt.resumed t
  obtain ⟨hprompt', hfired⟩ := hkeep.run hs hrun
  have hindex := hkeep.run_index hs hrun
  change AtPrompt io (timeline ++ firedSince m m') m' at hprompt'
  change firedSince m m' ≠ [] at hfired
  change min k 255 ≤ _ at hindex
  have hpos : 1 ≤ k := List.length_pos_iff.mpr hfired
  have hlen : (timeline ++ firedSince m m').length = timeline.length + k := List.length_append
  have hnonempty : 1 ≤ timeline.length := by
    rw [Nat.one_le_iff_ne_zero]
    intro h0
    rw [List.length_eq_zero_iff.mp h0] at hf
    cases hf
  -- `k` entries before the last one is where the run began
  have hbegan : (timeline ++ firedSince m m')[(timeline ++ firedSince m m').length - 1 - k]? =
      some f := by
    rw [hlen, List.getElem?_append_left (by omega), ← hf, List.getLast?_eq_getElem?]
    congr 1
    omega
  refine ⟨hpos, ?_, fun hsmall => ?_⟩
  · obtain ⟨last, hlast, -, hcycle⟩ := hprompt'.latest
    obtain ⟨g, hg, -, hstart⟩ := hprompt.latest
    obtain rfl : f = g := Option.some.inj (hf.symm.trans hg)
    obtain ⟨hlt, hat⟩ := List.getElem?_eq_some_iff.mp hbegan
    rw [hcycle, ← chain_cycle hprompt'.chain hlast k (by omega), hat, hstart]
  · have hn : (UInt64.ofNat k).toNat = k := by
      rw [UInt64.toNat_ofNat', Nat.mod_eq_of_lt (by omega)]
    obtain ⟨f', hf', hback, -⟩ := hprompt'.back hpos (by omega)
    obtain rfl : f = f' := Option.some.inj (hbegan.symm.trans hf')
    refine ⟨backTo io k m', congrArg (fun n => some (Reply.prompt (backTo io n m'))) hn, ?_,
      hback.sp.trans hstands.sp.symm, hback.cycleCount.trans hstands.cycleCount.symm,
      hback.mem.trans hstands.mem.symm, hback.cursor.trans hstands.cursor.symm,
      (backTo_breakpoints io k m').trans (runs_breakpoints hprompt hc hm)⟩
    unfold VMState.cpu
    rw [hback.regs, hback.pc, hback.flags, hstands.regs, hstands.pc, hstands.flags]

/-- The same program: `step 3; back 3`. -/
theorem run_taken_back_fresh :
    let io := freshMode (fun _ => 5) (fun _ => 0)
    ∃ m m' m'' : Repl (Nat × Nat), debugStart io storeThenIn (0, 0) = some m ∧
      command io 4 m (.step 3) = some (.prompt m') ∧
      command io 0 m' (.back 3) = some (.prompt m'') ∧
      m''.state.cpu = m.state.cpu ∧ m''.mem = m.mem := by
  intro io
  have hstart : (debugStart io storeThenIn (0, 0)).map
      (fun m => (m.state.halted, (firings m.history).length)) = some (.running, 0) := by
    decide +kernel
  obtain ⟨m, hm, hfacts⟩ := Option.map_eq_some_iff.mp hstart
  obtain ⟨hrunning, hnone⟩ := Prod.mk.inj hfacts
  have hrun : ((debugStart io storeThenIn (0, 0)).bind fun m => session io 4 m [.step 3]).map
      (fun m => (firings m.history).length) = some 3 := by
    decide +kernel
  rw [hm] at hrun
  obtain ⟨m', hm', hthree⟩ := Option.map_eq_some_iff.mp hrun
  obtain ⟨u, hu, hnil⟩ := session_cons hm'
  cases hnil
  have hgoes : ¬ m.state.halted.natural := by
    rw [hrunning]
    rintro (hn | hn | hn) <;> cases hn
  have hlen : (firedSince m m').length = 3 := by
    unfold firedSince
    rw [List.length_drop, hnone, hthree]
  obtain ⟨-, -, hback⟩ := run_taken_back io storeThenIn (0, 0) _ _ m (.start hm) hgoes (.step 3)
    (m.state.cycleCount + 3) ⟨by decide, rfl⟩ 4 m' hu
  rw [hlen] at hback
  obtain ⟨m'', hm'', hcpu, -, -, hmem, -⟩ := hback (by decide)
  exact ⟨m, m', m'', hm, hu, hm'', hcpu, hmem⟩

end RetroVM

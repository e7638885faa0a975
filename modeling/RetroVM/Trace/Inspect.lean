import RetroVM.Trace.Tamper

/-!
# What a trace says about its run (`main.cpp`, `cmd_inspect_trace`)

`inspect-trace` reads a `.trace` file without its program. Of a file `cmd_record` wrote, its rows
are facts about the run: `op_IN` and `op_RAND` are how many words were taken from stdin and from the
generator, the frames hold them in the order they were taken, and nothing behind them was looked at.
A run of less than `2 ^ 64` cycles stamps its frames in order, so the cycle rows are what they say.

Results:
* `tally_eq`: the loop over the frames, as counts of them.
* `recorded_ledger`: what the frames are at any time of a recording.
* `record_reads_only`: the words behind those taken do not matter.
* **`inspect_trace_counts_inputs`**, **`inspect_trace_cycles_exact`**.
-/

namespace RetroVM

/-! ## The command -/

/-- What the loop over the frames has counted. -/
structure FrameTally where
  firstCycle   : UInt64
  lastCycle    : UInt64
  opInCount    : Nat
  opRandCount  : Nat
  opOtherCount : Nat

/-- Before the first frame. -/
def FrameTally.zero : FrameTally := ⟨0, 0, 0, 0, 0⟩

/-- Count frame `i`. -/
def FrameTally.count (t : FrameTally) (i : Nat) (f : TraceFrame) : FrameTally :=
  let t := { t with
    firstCycle := if i = 0 then f.cycle else t.firstCycle
    lastCycle := f.cycle }
  if f.opcode = Opcode.opIn.byte then { t with opInCount := t.opInCount + 1 }
  else if f.opcode = Opcode.opRand.byte then { t with opRandCount := t.opRandCount + 1 }
  else { t with opOtherCount := t.opOtherCount + 1 }

/-- The loop over the frames, `n` rounds before its end. -/
def tallyFrom (r : TraceReader) : Nat → Nat → FrameTally → FrameTally
  | 0, _, t => t
  | n + 1, i, t =>
    match r.frameAt i with
    | none => t
    | some f => tallyFrom r n (i + 1) (t.count i f)

/-- What is printed of a whole trace; a row that is left out, or says `(none)`, is `none`. -/
structure TraceReport where
  sizeBytes  : Nat
  magic      : List UInt8
  version    : UInt32
  frameCount : Nat
  cycleFirst : Option UInt64
  cycleLast  : Option UInt64
  cycleDelta : UInt64
  opIn       : Nat
  opRand     : Nat
  opOther    : Option Nat

/-- What is printed of one frame. -/
structure FrameReport where
  frameIndex : Nat
  cycle      : UInt64
  opcode     : UInt8
  opName     : String
  value      : UInt32

/-- What `cmd_inspect_trace` prints. -/
inductive TraceInspection where
  /-- `cannot open`, with what the constructor of the reader threw. -/
  | cannotOpen (e : TraceError)
  /-- `--frame=N out of range`. -/
  | outOfRange (frameIdx frameCount : Nat)
  | frame (f : FrameReport)
  | report (t : TraceReport)

/-- The mnemonic of a frame. -/
def opName (opcode : UInt8) : String :=
  if opcode = Opcode.opIn.byte then "OP_IN"
  else if opcode = Opcode.opRand.byte then "OP_RAND"
  else "unknown"

/-- The rows of a whole trace. -/
def TraceReader.report (r : TraceReader) : TraceReport :=
  let t := tallyFrom r r.frameCount 0 .zero
  let shown := fun c : UInt64 => if r.frameCount > 0 then some c else none
  { sizeBytes := r.map.length
    magic := r.magic.takeWhile (· ≠ 0)
    version := r.version
    frameCount := r.frameCount
    cycleFirst := shown t.firstCycle
    cycleLast := shown t.lastCycle
    cycleDelta := if r.frameCount > 0 then t.lastCycle - t.firstCycle else 0
    opIn := t.opInCount
    opRand := t.opRandCount
    opOther := if t.opOtherCount > 0 then some t.opOtherCount else none }

/-- `cmd_inspect_trace` on a file, with `--frame=N` or without. -/
def cmdInspectTrace (file : List UInt8) (frameIdx : Option Nat) : TraceInspection :=
  match TraceReader.ofFile file with
  | .error e => .cannotOpen e
  | .ok reader =>
    match frameIdx with
    | some i =>
      match reader.frameAt i with
      | none => .outOfRange i reader.frameCount
      | some f => .frame ⟨i, f.cycle, f.opcode, opName f.opcode, f.value⟩
    | none => .report reader.report

/-! ## The loop over the frames -/

/-- The frames of a trace that answered `q`. -/
def Trace.answersTo (frames : Trace) (q : Query) : Trace := frames.filter (·.opcode = q.byte)

/-- The frames of a trace that answered neither. -/
def Trace.others (frames : Trace) : Trace :=
  frames.filter fun f => f.opcode ≠ Query.input.byte ∧ f.opcode ≠ Query.random.byte

theorem answersTo_append (fs gs : Trace) (q : Query) :
    Trace.answersTo (fs ++ gs) q = fs.answersTo q ++ gs.answersTo q := List.filter_append ..

theorem others_append (fs gs : Trace) : Trace.others (fs ++ gs) = fs.others ++ gs.others :=
  List.filter_append ..

/-- A frame is counted in one of the three. -/
theorem count_eq (t : FrameTally) (i : Nat) (f : TraceFrame) :
    t.count i f =
      { firstCycle := if i = 0 then f.cycle else t.firstCycle
        lastCycle := f.cycle
        opInCount := t.opInCount + (Trace.answersTo [f] .input).length
        opRandCount := t.opRandCount + (Trace.answersTo [f] .random).length
        opOtherCount := t.opOtherCount + (Trace.others [f]).length } := by
  have hne : Opcode.opRand.byte ≠ Opcode.opIn.byte := by decide
  unfold FrameTally.count Trace.answersTo Trace.others
  by_cases hin : f.opcode = Opcode.opIn.byte
  · simp [hin, Query.byte, Query.opcode, hne.symm]
  by_cases hrand : f.opcode = Opcode.opRand.byte
  · simp [hrand, Query.byte, Query.opcode, hne]
  · simp [hin, hrand, Query.byte, Query.opcode]

/-- Frames with no others answered one or the other. -/
theorem length_parts {frames : Trace} (h : frames.others = []) :
    frames.length = (frames.answersTo .input).length + (frames.answersTo .random).length := by
  have hne : Query.random.byte ≠ Query.input.byte := by decide
  rw [Trace.others, List.filter_eq_nil_iff] at h
  have hrest : frames.answersTo .random =
      frames.filter fun f => !decide (f.opcode = Query.input.byte) := by
    refine List.filter_congr fun f hf => ?_
    have hone := h f hf
    by_cases hin : f.opcode = Query.input.byte
    · simp [hin, hne.symm]
    · simpa [hin] using hone
  rw [hrest]
  exact List.length_eq_length_filter_add _

/-- A frame that is not among the others answered a query. -/
theorem query_of_recorded {frames : Trace} (h : frames.others = []) {f : TraceFrame}
    (hf : f ∈ frames) : ∃ q : Query, f.opcode = q.byte := by
  rw [Trace.others, List.filter_eq_nil_iff] at h
  have hone := h f hf
  by_cases hin : f.opcode = Query.input.byte
  · exact ⟨.input, hin⟩
  · exact ⟨.random, by simpa [hin] using hone⟩

theorem eq_of_map_range {f g : Nat → UInt32} {n : Nat}
    (h : (List.range n).map f = (List.range n).map g) : ∀ i < n, f i = g i := fun i hi =>
  List.map_inj_left.mp h i (List.mem_range.mpr hi)

section Loop

variable {r : TraceReader}

/-- A round counts the frame it is at. -/
theorem tallyFrom_succ {n i : Nat} {f : TraceFrame} {rest : Trace} (h : r.frames.drop i = f :: rest)
    (t : FrameTally) : tallyFrom r (n + 1) i t = tallyFrom r n (i + 1) (t.count i f) := by
  have hat : r.frameAt i = some f := by
    rw [← frames_getElem?, ← List.head?_drop, h]
    rfl
  rw [tallyFrom, hat]

/-- **The loop counts the frames**: those that answered `IN`, those that answered `RAND`, the
others, and the first and the last cycle. -/
theorem tallyFrom_eq {rest : Trace} {i : Nat} (h : r.frames.drop i = rest) (t : FrameTally) :
    tallyFrom r rest.length i t =
      { firstCycle := if i = 0 then (rest.head?.map (·.cycle)).getD t.firstCycle else t.firstCycle
        lastCycle := (rest.getLast?.map (·.cycle)).getD t.lastCycle
        opInCount := t.opInCount + (rest.answersTo .input).length
        opRandCount := t.opRandCount + (rest.answersTo .random).length
        opOtherCount := t.opOtherCount + rest.others.length } := by
  induction rest generalizing i t with
  | nil => simp [tallyFrom, Trace.answersTo, Trace.others]
  | cons f rest ih =>
    have hrest : r.frames.drop (i + 1) = rest := by
      rw [← List.drop_drop, h]
      rfl
    have hlast : ((f :: rest).getLast?.map (·.cycle)).getD t.lastCycle =
        (rest.getLast?.map (·.cycle)).getD f.cycle := by
      cases rest <;> simp [List.getLast?_cons]
    have hparts : ∀ q, (Trace.answersTo (f :: rest) q).length =
        (Trace.answersTo [f] q).length + (Trace.answersTo rest q).length := fun q => by
      rw [← List.length_append, ← answersTo_append, List.singleton_append]
    have hothers : (Trace.others (f :: rest)).length =
        (Trace.others [f]).length + (Trace.others rest).length := by
      rw [← List.length_append, ← others_append, List.singleton_append]
    rw [List.length_cons, tallyFrom_succ h, ih hrest, count_eq, hlast, hparts, hparts, hothers]
    simp [Nat.add_assoc]

end Loop

/-! ## What a recording took -/

section Recording

variable {stdin rng : Nat → UInt32}

/-- What a recorder holds at any time: a frame for each word taken, in the order they were taken. -/
structure Ledger (stdin rng : Nat → UInt32) (w : Recorder) : Prop where
  inputs  : (Trace.answersTo w.frames .input).map (·.value) = (List.range w.ins).map stdin
  randoms : (Trace.answersTo w.frames .random).map (·.value) = (List.range w.draws).map rng
  others  : Trace.others w.frames = []

/-- The lengths of what a ledger holds. -/
theorem Ledger.counts {w : Recorder} (h : Ledger stdin rng w) :
    (Trace.answersTo w.frames .input).length = w.ins ∧
      (Trace.answersTo w.frames .random).length = w.draws := by
  have hins := congrArg List.length h.inputs
  have hdraws := congrArg List.length h.randoms
  simp only [List.length_map, List.length_range] at hins hdraws
  exact ⟨hins, hdraws⟩

/-- The frames are stamped in order, none later than cycle `n`. -/
structure Stamped (n : Nat) (frames : Trace) : Prop where
  rising : frames.Pairwise fun f g => f.cycle.toNat < g.cycle.toNat
  past   : ∀ f ∈ frames, f.cycle.toNat ≤ n

/-- One more word taken keeps the ledger. -/
theorem Ledger.asked {w : Recorder} (h : Ledger stdin rng w) (q : Query) (cycle : UInt64) :
    Ledger stdin rng (w.asked stdin rng q cycle) where
  inputs := by
    rw [asked_frames, answersTo_append, List.map_append, h.inputs]
    cases q with
    | input =>
      rw [Recorder.asked, List.range_succ, List.map_append]
      rfl
    | random => exact List.append_nil _
  randoms := by
    rw [asked_frames, answersTo_append, List.map_append, h.randoms]
    cases q with
    | input => exact List.append_nil _
    | random =>
      rw [Recorder.asked, List.range_succ, List.map_append]
      rfl
  others := by
    rw [asked_frames, others_append, h.others]
    cases q <;> rfl

/-- So does a frame of the next cycle the stamps. -/
theorem Stamped.append {n : Nat} {frames : Trace} (h : Stamped n frames) {f : TraceFrame}
    (hc : f.cycle.toNat = n + 1) : Stamped (n + 1) (frames ++ [f]) where
  rising := by
    rw [List.pairwise_append]
    refine ⟨h.rising, List.pairwise_singleton _ _, fun g hg k hk => ?_⟩
    obtain rfl := List.mem_singleton.mp hk
    exact hc ▸ Nat.lt_succ_of_le (h.past g hg)
  past := by
    intro g hg
    rcases List.mem_append.mp hg with hg | hg
    · exact Nat.le_succ_of_le (h.past g hg)
    · obtain rfl := List.mem_singleton.mp hg
      exact Nat.le_of_eq hc

/-- Frames are at least as many cycles apart as they are frames apart. -/
theorem Stamped.apart {n : Nat} {frames : Trace} (h : Stamped n frames) {i d : Nat}
    {f g : TraceFrame} (hf : frames[i]? = some f) (hg : frames[i + d]? = some g) :
    f.cycle.toNat + d ≤ g.cycle.toNat := by
  induction d generalizing g with
  | zero =>
    obtain rfl : f = g := Option.some.inj (hf.symm.trans hg)
    exact Nat.le_refl _
  | succ d ih =>
    obtain ⟨hlt, hget⟩ := List.getElem?_eq_some_iff.mp hg
    have hprev : frames[i + d]? = some frames[i + d] := List.getElem?_eq_getElem (by omega)
    have hnext := List.pairwise_iff_getElem.mp h.rising (i + d) (i + (d + 1)) (by omega) hlt
      (by omega)
    rw [hget] at hnext
    exact Nat.lt_of_le_of_lt (ih hprev) hnext

/-- The first and the last frame have the others between them. -/
theorem Stamped.span {n : Nat} {frames : Trace} (h : Stamped n frames) {f l : TraceFrame}
    (hf : frames.head? = some f) (hl : frames.getLast? = some l) :
    (∀ g ∈ frames, f.cycle ≤ g.cycle ∧ g.cycle ≤ l.cycle) ∧
      f.cycle.toNat + (frames.length - 1) ≤ l.cycle.toNat := by
  rw [List.head?_eq_getElem?] at hf
  rw [List.getLast?_eq_getElem?] at hl
  have hend : ∀ i, i < frames.length → frames[i + (frames.length - 1 - i)]? = some l := by
    intro i hi
    rw [← hl]
    congr 1
    omega
  refine ⟨fun g hg => ?_, h.apart hf (hend 0 (List.getElem?_eq_some_iff.mp hf).1)⟩
  obtain ⟨i, hi⟩ := List.mem_iff_getElem?.mp hg
  have hafter := h.apart hf (show frames[0 + i]? = some g by rwa [Nat.zero_add])
  have hbefore := h.apart hi (hend i (List.getElem?_eq_some_iff.mp hi).1)
  exact ⟨UInt64.le_iff_toNat_le.mpr (by omega), UInt64.le_iff_toNat_le.mpr (by omega)⟩

/-- A recorder that has just been started. -/
structure Fresh (m : Machine Recorder) : Prop where
  off   : m.state.snapInterval = 0
  clock : m.state.cycleCount = 0
  empty : m.env = ⟨0, 0, []⟩

/-- **The ledger of a run.** -/
theorem ledger_of_run {m : Machine Recorder} (hm : Fresh m) {x : Exit Recorder}
    (h : StepLoop.Leaves (Machine.cycle (recordEnv stdin rng)) m x) :
    Ledger stdin rng x.machine.env := by
  have hturn : ∀ s : Machine Recorder, s.state.snapInterval = 0 ∧ Ledger stdin rng s.env →
      (landed (s.cycle (recordEnv stdin rng))).state.snapInterval = 0 ∧
        Ledger stdin rng (landed (s.cycle (recordEnv stdin rng))).env := by
    rintro s ⟨hoff, hledger⟩
    refine ⟨(cycle_frame (recordEnv stdin rng) s).2.2.trans hoff, ?_⟩
    rcases record_turn_asks stdin rng hoff with hsame | ⟨q, -, -, hasked⟩
    · exact hsame ▸ hledger
    · exact hasked ▸ hledger.asked q _
  refine StepLoop.leaves_invariant
    (I := fun s : Machine Recorder => s.state.snapInterval = 0 ∧ Ledger stdin rng s.env)
    (Q := fun y : Exit Recorder => Ledger stdin rng y.machine.env)
    (fun s s' hs hc => ?_) (fun s y hs hc => ?_) ⟨hm.off, ?_⟩ h
  · have hs' := hturn s hs
    rwa [hc] at hs'
  · have hs' := (hturn s hs).2
    rwa [hc] at hs'
  · rw [hm.empty]
    exact ⟨rfl, rfl, rfl⟩

/-- A turn keeps the stamps, as long as the clock does not wrap. -/
theorem stamped_turn (stdin rng : Nat → UInt32) {m : Machine Recorder}
    (hi : m.state.snapInterval = 0) (h : Stamped m.state.cycleCount.toNat m.env.frames)
    (hclock : m.state.cycleCount.toNat + 1 < 2 ^ 64) :
    Stamped (landed (m.cycle (recordEnv stdin rng))).state.cycleCount.toNat
      (landed (m.cycle (recordEnv stdin rng))).env.frames := by
  have hcount : (m.state.cycleCount + 1).toNat = m.state.cycleCount.toNat + 1 := by
    rw [UInt64.toNat_add]
    exact Nat.mod_eq_of_lt hclock
  rw [(cycle_frame (recordEnv stdin rng) m).1, hcount]
  rcases record_turn_asks stdin rng hi with hsame | ⟨q, -, -, hasked⟩
  · rw [hsame]
    exact { h with past := fun f hf => Nat.le_succ_of_le (h.past f hf) }
  · rw [hasked, asked_frames]
    exact h.append hcount

theorem stamped_after {m u : Machine Recorder} (hm : Fresh m) {n : Nat} (hn : n < 2 ^ 64)
    (h : StepLoop.after (Machine.cycle (recordEnv stdin rng)) n m = .ok u) :
    u.state.cycleCount.toNat = n ∧ Stamped n u.env.frames := by
  have hclock : ∀ {k v}, k < 2 ^ 64 →
      StepLoop.after (Machine.cycle (recordEnv stdin rng)) k m = .ok v →
      v.state.cycleCount.toNat = k := fun hk hv => by
    rw [after_cycleCount hv, hm.clock, UInt64.zero_add, UInt64.toNat_ofNat', Nat.mod_eq_of_lt hk]
  refine ⟨hclock hn h, ?_⟩
  induction n generalizing u with
  | zero =>
    obtain rfl : m = u := by simpa using h
    rw [hm.empty]
    exact ⟨.nil, by simp⟩
  | succ n ih =>
    obtain ⟨v, hv, hc⟩ := StepLoop.after_ok_pred h
    have hvclock := hclock (Nat.lt_of_succ_lt hn) hv
    have hturn := stamped_turn stdin rng (after_off hm.off hv)
      (hvclock.symm ▸ ih (Nat.lt_of_succ_lt hn) hv) (by rw [hvclock]; exact hn)
    rw [hc, landed_ok] at hturn
    rwa [hclock hn h] at hturn

/-- **The stamps of a run** of fewer cycles than the clock counts. -/
theorem stamped_of_run {m : Machine Recorder} (hm : Fresh m) {n : Nat} (hn : n < 2 ^ 64)
    {x : Exit Recorder}
    (h : StepLoop.after (Machine.cycle (recordEnv stdin rng)) n m = .error x) :
    Stamped x.machine.state.cycleCount.toNat x.machine.env.frames := by
  obtain ⟨k, u, hk, hu, hc⟩ := StepLoop.after_error_last h
  obtain ⟨hclock, hstamped⟩ := stamped_after hm (Nat.lt_trans hk hn) hu
  have hturn := stamped_turn stdin rng (after_off hm.off hu) (hclock.symm ▸ hstamped)
    (by rw [hclock]; omega)
  rwa [hc] at hturn

/-- The counts of a recorder only grow. -/
theorem record_counts_grow (stdin rng : Nat → UInt32) {m : Machine Recorder}
    (hi : m.state.snapInterval = 0) :
    m.env.ins ≤ (landed (m.cycle (recordEnv stdin rng))).env.ins ∧
      m.env.draws ≤ (landed (m.cycle (recordEnv stdin rng))).env.draws := by
  rcases record_turn_asks stdin rng hi with hsame | ⟨q, -, -, hasked⟩
  · rw [hsame]
    exact ⟨Nat.le_refl _, Nat.le_refl _⟩
  · rw [hasked]
    cases q with
    | input => exact ⟨Nat.le_succ _, Nat.le_refl _⟩
    | random => exact ⟨Nat.le_refl _, Nat.le_succ _⟩

/-- Nor do they shrink before the end of a run. -/
theorem record_leaves_counts {m : Machine Recorder} (hi : m.state.snapInterval = 0)
    {x : Exit Recorder} (h : StepLoop.Leaves (Machine.cycle (recordEnv stdin rng)) m x) :
    m.env.ins ≤ x.machine.env.ins ∧ m.env.draws ≤ x.machine.env.draws := by
  refine StepLoop.leaves_invariant (I := fun u : Machine Recorder =>
      u.state.snapInterval = 0 ∧ m.env.ins ≤ u.env.ins ∧ m.env.draws ≤ u.env.draws)
    (Q := fun y : Exit Recorder =>
      m.env.ins ≤ y.machine.env.ins ∧ m.env.draws ≤ y.machine.env.draws)
    (fun s s' hs hc => ?_) (fun s y hs hc => ?_) ⟨hi, Nat.le_refl _, Nat.le_refl _⟩ h
  · have hgrow := record_counts_grow stdin rng hs.1
    have hoff := (cycle_frame (recordEnv stdin rng) s).2.2
    rw [hc] at hgrow hoff
    exact ⟨hoff.trans hs.1, hs.2.1.trans hgrow.1, hs.2.2.trans hgrow.2⟩
  · have hgrow := record_counts_grow stdin rng hs.1
    rw [hc] at hgrow
    exact ⟨hs.2.1.trans hgrow.1, hs.2.2.trans hgrow.2⟩

end Recording

/-! ## What a recording did not take -/

section Untaken

variable {stdin rng stdin' rng' : Nat → UInt32}

/-- The two streams give the words that were taken by the end of a run. -/
def AgreeOn (w : Recorder) (stdin rng stdin' rng' : Nat → UInt32) : Prop :=
  (∀ i < w.ins, stdin' i = stdin i) ∧ ∀ i < w.draws, rng' i = rng i

theorem AgreeOn.mono {v w : Recorder} (h : AgreeOn w stdin rng stdin' rng') (hins : v.ins ≤ w.ins)
    (hdraws : v.draws ≤ w.draws) : AgreeOn v stdin rng stdin' rng' :=
  ⟨fun i hi => h.1 i (Nat.lt_of_lt_of_le hi hins), fun i hi => h.2 i (Nat.lt_of_lt_of_le hi hdraws)⟩

/-- A word that does not ask does the same whatever is wired to the VM. -/
theorem retire_unasked (E F : Env Recorder) {instr : UInt32} (m : Machine Recorder)
    (h : ∀ q dst, decode instr ≠ some (.ask q dst)) : m.retire E instr = m.retire F instr := by
  unfold Machine.retire
  cases hd : decode instr with
  | none => rfl
  | some i =>
    simp only
    cases he : i.effect m.mem m.state.cpu with
    | ask q dst => exact absurd (hd.trans (congrArg some (ask_of_effect he))) (h q dst)
    | _ => rfl

/-- A turn that takes a word both streams have at its place, or none, is the same with either. -/
theorem record_turn_agrees {m : Machine Recorder} (hi : m.state.snapInterval = 0)
    (h : AgreeOn (landed (m.cycle (recordEnv stdin rng))).env stdin rng stdin' rng') :
    m.cycle (recordEnv stdin' rng') = m.cycle (recordEnv stdin rng) := by
  rw [cycle_off _ hi] at h
  rw [cycle_off _ hi, cycle_off _ hi]
  by_cases hask : ∃ q dst, decode m.fetched = some (.ask q dst)
  · obtain ⟨q, dst, hd⟩ := hask
    rw [retire_ask hd, landed_receive, received_env] at h
    change AgreeOn (consult (recordHooks stdin rng) q _ m.env).env _ _ _ _ at h
    rw [consult_asked] at h
    have hsame : consult (recordHooks stdin' rng') q (m.state.cycleCount + 1) m.env =
        consult (recordHooks stdin rng) q (m.state.cycleCount + 1) m.env := by
      cases q with
      | input =>
        have hword := h.1 m.env.ins (Nat.lt_succ_self _)
        simp only [consult, recordHooks, IOHooks.query, hword]
      | random =>
        have hword := h.2 m.env.draws (Nat.lt_succ_self _)
        simp only [consult, recordHooks, IOHooks.query, hword]
    rw [retire_ask hd, retire_ask hd]
    exact congrArg _ hsame
  · exact retire_unasked _ _ _ fun q dst hd => hask ⟨q, dst, hd⟩

/-- **A recording depends on the words it took only.** -/
theorem record_reads_only {m : Machine Recorder} (hi : m.state.snapInterval = 0)
    {x : Exit Recorder} {n : Nat}
    (h : StepLoop.after (Machine.cycle (recordEnv stdin rng)) n m = .error x)
    (hagree : AgreeOn x.machine.env stdin rng stdin' rng') :
    StepLoop.after (Machine.cycle (recordEnv stdin' rng')) n m = .error x := by
  induction n generalizing m with
  | zero => cases h
  | succ n ih =>
    cases hc : m.cycle (recordEnv stdin rng) with
    | ok m' =>
      have hoff := (cycle_frame (recordEnv stdin rng) m).2.2
      rw [hc] at hoff
      rw [StepLoop.after_succ_ok hc] at h
      obtain ⟨hins, hdraws⟩ := record_leaves_counts (hoff.trans hi) ⟨n, h⟩
      have hturn := record_turn_agrees hi (hc ▸ hagree.mono hins hdraws)
      rw [StepLoop.after_succ_ok (hturn.trans hc)]
      exact ih (hoff.trans hi) h
    | error y =>
      rw [StepLoop.after_succ_error hc] at h
      obtain rfl : y = x := Except.error.inj h
      rw [StepLoop.after_succ_error ((record_turn_agrees hi (hc ▸ hagree)).trans hc)]

end Untaken

/-! ## What `inspect-trace` prints of a recording -/

/-- The run behind a recording that halted. -/
theorem run_of_recording {bytes : List UInt8} {stdin rng : Nat → UInt32} {fuel : Nat}
    {r : HaltReason} {vm : VM} {frames : Trace}
    (h : cmdRecord bytes stdin rng fuel = some (.halted r vm frames)) :
    ∃ vm0 x, VM.boot bytes = some vm0 ∧ Fresh (.start vm0 ⟨0, 0, []⟩) ∧
      StepLoop.after (Machine.cycle (recordEnv stdin rng)) fuel (.start vm0 ⟨0, 0, []⟩) =
        .error x ∧ recordVerdict x = .halted r vm frames := by
  cases hboot : VM.boot bytes with
  | none =>
    unfold cmdRecord at h
    rw [hboot] at h
    cases h
  | some vm0 =>
    obtain ⟨x, hx, hverdict⟩ := (cmdRecord_eq_some_iff hboot).mp h
    exact ⟨vm0, x, rfl, ⟨(boot_running hboot).2, by rw [boot_eq_some hboot]; rfl, rfl⟩, hx,
      hverdict⟩

/-- The header fields of an accepted file. -/
theorem ofFile_header {file : List UInt8} {r : TraceReader} (h : TraceReader.ofFile file = .ok r) :
    r.version = 1 ∧ r.magic = traceMagic := by
  obtain ⟨-, hmagic, hversion⟩ := ofFile_eq_ok h
  have hfields : r.version = wordAt file 8 ∧ r.magic = file.take 8 := by
    unfold TraceReader.ofFile at h
    simp only [readU32Le_eq] at h
    split at h
    · cases h
    split at h
    · cases h
    split at h
    · cases h
    split at h
    · cases h
    split at h
    · cases h
      exact ⟨rfl, rfl⟩
    · split at h
      · cases h
      · cases h
        exact ⟨rfl, rfl⟩
  exact ⟨hfields.1.trans hversion, hfields.2.trans hmagic⟩

/-- The values of a recording, by what they answered. -/
theorem recording_values {bytes : List UInt8} {stdin rng : Nat → UInt32} {fuel : Nat}
    {r : HaltReason} {vm : VM} {frames : Trace}
    (h : cmdRecord bytes stdin rng fuel = some (.halted r vm frames)) :
    (frames.answersTo .input).map (·.value) =
        (List.range (frames.answersTo .input).length).map stdin ∧
      (frames.answersTo .random).map (·.value) =
        (List.range (frames.answersTo .random).length).map rng ∧ frames.others = [] := by
  obtain ⟨vm0, x, -, hfresh, hx, hverdict⟩ := run_of_recording h
  obtain ⟨-, -, rfl⟩ := recordVerdict_eq_halted.mp hverdict
  have hledger := ledger_of_run hfresh ⟨fuel, hx⟩
  obtain ⟨hins, hdraws⟩ := hledger.counts
  rw [hins, hdraws]
  exact ⟨hledger.inputs, hledger.randoms, hledger.others⟩

/-- **The rows of a recorded file.** -/
theorem inspect_traceFile (frames : Trace) :
    cmdInspectTrace (traceFile frames) none = .report
      { sizeBytes := 16 + 16 * frames.length
        magic := traceMagic
        version := 1
        frameCount := frames.length
        cycleFirst := frames.head?.map (·.cycle)
        cycleLast := frames.getLast?.map (·.cycle)
        cycleDelta := (frames.getLast?.map (·.cycle)).getD 0 - (frames.head?.map (·.cycle)).getD 0
        opIn := (frames.answersTo .input).length
        opRand := (frames.answersTo .random).length
        opOther := if frames.others = [] then none else some frames.others.length } := by
  obtain ⟨reader, hr, hcount, -⟩ := ofFile_flushToFile ⟨frames⟩
  have hframes : reader.frames = frames := frames_of_flushToFile hr
  obtain ⟨hversion, hmagic⟩ := ofFile_header hr
  have hmap : reader.map = traceFile frames := (ofFile_eq_ok hr).1
  have htally := tallyFrom_eq (show reader.frames.drop 0 = frames from hframes) .zero
  have hlen : frames.length = reader.frameCount := by rw [← hframes, frames_length]
  unfold cmdInspectTrace
  rw [show TraceReader.ofFile (traceFile frames) = .ok reader from hr]
  simp only [TraceReader.report]
  rw [hlen] at htally
  rw [htally, hmap, hversion, hmagic, traceFile_length, ← hlen]
  cases frames with
  | nil => rfl
  | cons f rest =>
    have hpos : (f :: rest).length > 0 := Nat.succ_pos _
    have hothers : ∀ l : Trace, (if l.length > 0 then some l.length else none) =
        if l = [] then none else some l.length := by
      intro l
      cases l with
      | nil => rfl
      | cons g l => simp
    rw [List.getLast?_cons]
    simp only [if_pos hpos, if_true, FrameTally.zero, hothers, Nat.zero_add]
    rfl

/-- A row of a recorded file, by its index. -/
theorem inspect_traceFile_frame (frames : Trace) (i : Nat) :
    cmdInspectTrace (traceFile frames) (some i) =
      match frames[i]? with
      | none => .outOfRange i frames.length
      | some f => .frame ⟨i, f.cycle, f.opcode, opName f.opcode, f.value⟩ := by
  obtain ⟨reader, hr, hcount, hat⟩ := ofFile_flushToFile ⟨frames⟩
  unfold cmdInspectTrace
  rw [show TraceReader.ofFile (traceFile frames) = .ok reader from hr]
  simp only [hat i, hcount]

/-- **What the counts of a recorded file say.** `op_IN` and `op_RAND` are how many words the run
took from stdin and from the generator, and the frames hold them in order; no other frame is there.
Exactly the recordings that find the same words there leave this file, and they end alike: what is
behind those words is not looked at. -/
theorem inspect_trace_counts_inputs (bytes : List UInt8) (stdin rng : Nat → UInt32) (fuel : Nat)
    (r : HaltReason) (vm : VM) (frames : Trace)
    (h : cmdRecord bytes stdin rng fuel = some (.halted r vm frames)) :
    ∃ t, cmdInspectTrace (traceFile frames) none = .report t ∧
      t.frameCount = t.opIn + t.opRand ∧ t.opOther = none ∧
      (frames.answersTo .input).map (·.value) = (List.range t.opIn).map stdin ∧
      (frames.answersTo .random).map (·.value) = (List.range t.opRand).map rng ∧
      ∀ stdin' rng',
        let agree := (∀ i < t.opIn, stdin' i = stdin i) ∧ ∀ i < t.opRand, rng' i = rng i
        ((∃ fuel' r' vm', cmdRecord bytes stdin' rng' fuel' = some (.halted r' vm' frames)) →
          agree) ∧
        (agree → cmdRecord bytes stdin' rng' fuel = some (.halted r vm frames)) := by
  obtain ⟨hins, hdraws, hothers⟩ := recording_values h
  refine ⟨_, inspect_traceFile frames, length_parts hothers, if_pos hothers, hins, hdraws,
    fun stdin' rng' => ⟨?_, fun hagree => ?_⟩⟩
  · rintro ⟨fuel', r', vm', h'⟩
    obtain ⟨hins', hdraws', -⟩ := recording_values h'
    exact ⟨eq_of_map_range (hins'.symm.trans hins), eq_of_map_range (hdraws'.symm.trans hdraws)⟩
  · obtain ⟨vm0, x, hboot, hfresh, hx, hverdict⟩ := run_of_recording h
    obtain ⟨-, -, rfl⟩ := recordVerdict_eq_halted.mp hverdict
    obtain ⟨htook, hdrew⟩ := (ledger_of_run hfresh ⟨fuel, hx⟩).counts
    simp only at hagree
    rw [htook, hdrew] at hagree
    exact (cmdRecord_eq_some_iff hboot).mpr ⟨x, record_reads_only hfresh.off hx hagree, hverdict⟩

/-- `IN R0; RAND R1; HALT`, with other words behind the two that were taken. -/
theorem inspect_trace_counts_inputs_in_rand :
    ∃ r vm, cmdRecord (imageOf [encode 0x09 0 0 0, encode 0x0A 1 0 0, 0])
      (fun i => if i = 0 then 7 else 1) (fun i => if i = 0 then 9 else 2) 3 =
        some (.halted r vm [⟨1, 0x09, 7⟩, ⟨2, 0x0A, 9⟩]) := by
  let bytes := imageOf [encode 0x09 0 0 0, encode 0x0A 1 0 0, 0]
  have hframes : (cmdRecord bytes (fun _ => 7) (fun _ => 9) 3).bind RecordOutcome.frames =
      some [⟨1, 0x09, 7⟩, ⟨2, 0x0A, 9⟩] := by
    decide +kernel
  obtain ⟨r, vm, hrec⟩ := halted_of_frames hframes
  obtain ⟨t, ht, -, -, -, -, hothers⟩ := inspect_trace_counts_inputs bytes _ _ 3 r vm _ hrec
  obtain rfl := TraceInspection.report.inj (ht.symm.trans (inspect_traceFile _))
  refine ⟨r, vm, (hothers _ _).2 ⟨fun i hi => ?_, fun i hi => ?_⟩⟩
  · rw [if_pos (Nat.lt_one_iff.mp hi)]
  · rw [if_pos (Nat.lt_one_iff.mp hi)]

/-- What `inspect-trace` prints as the mnemonic of a query. -/
def Query.mnemonic : Query → String
  | .input => "OP_IN"
  | .random => "OP_RAND"

/-- **What the cycles of a recorded file say**, the run having taken fewer than `2 ^ 64`. They rise
from frame to frame, up to the cycle the run ended in; so the first, the last and their difference
are those of the run, and no two frames share a cycle. A single frame is shown with the opcode that
recorded it, and only a frame that is not there is refused. -/
theorem inspect_trace_cycles_exact (bytes : List UInt8) (stdin rng : Nat → UInt32) (fuel : Nat)
    (r : HaltReason) (vm : VM) (frames : Trace)
    (h : cmdRecord bytes stdin rng fuel = some (.halted r vm frames)) (hfuel : fuel < 2 ^ 64) :
    (∃ t, cmdInspectTrace (traceFile frames) none = .report t ∧
      ∀ first last, t.cycleFirst = some first → t.cycleLast = some last →
        (∀ f ∈ frames, first ≤ f.cycle ∧ f.cycle ≤ last) ∧ last ≤ vm.state.cycleCount ∧
          t.cycleDelta.toNat = last.toNat - first.toNat ∧
          t.frameCount ≤ t.cycleDelta.toNat + 1) ∧
    (∀ (i j : Nat) (f g : TraceFrame), frames[i]? = some f → frames[j]? = some g → i < j →
      f.cycle < g.cycle) ∧
    ∀ i : Nat, match frames[i]? with
      | none => cmdInspectTrace (traceFile frames) (some i) = .outOfRange i frames.length
      | some f => ∃ q : Query, f.opcode = q.byte ∧ cmdInspectTrace (traceFile frames) (some i) =
          .frame ⟨i, f.cycle, q.byte, q.mnemonic, f.value⟩ := by
  obtain ⟨-, -, hothers⟩ := recording_values h
  obtain ⟨vm0, x, -, hfresh, hx, hverdict⟩ := run_of_recording h
  have hstamped := stamped_of_run hfresh hfuel hx
  obtain ⟨-, rfl, rfl⟩ := recordVerdict_eq_halted.mp hverdict
  refine ⟨⟨_, inspect_traceFile _, fun first last hfirst hlast => ?_⟩, fun i j f g hf hg hij => ?_,
    fun i => ?_⟩
  · obtain ⟨f, hf, rfl⟩ := Option.map_eq_some_iff.mp hfirst
    obtain ⟨l, hl, rfl⟩ := Option.map_eq_some_iff.mp hlast
    simp only [hf, hl, Option.map_some, Option.getD_some]
    obtain ⟨hbetween, hspan⟩ := hstamped.span hf hl
    have hle : f.cycle ≤ l.cycle := (hbetween f (List.mem_of_mem_head? hf)).2
    have hdelta := UInt64.toNat_sub_of_le _ _ hle
    have hpast := hstamped.past l (List.mem_of_getLast? hl)
    exact ⟨hbetween, UInt64.le_iff_toNat_le.mpr hpast, hdelta, by omega⟩
  · obtain ⟨d, rfl⟩ := Nat.exists_eq_add_of_lt hij
    have hapart := hstamped.apart (d := d + 1) hf hg
    exact UInt64.lt_iff_toNat_lt.mpr (by omega)
  · rw [inspect_traceFile_frame]
    cases hf : x.machine.env.frames[i]? with
    | none => rfl
    | some f =>
      obtain ⟨q, hq⟩ := query_of_recorded hothers (List.mem_of_getElem? hf)
      simp only
      refine ⟨q, hq, ?_⟩
      rw [hq]
      cases q <;> rfl

/-- The same program: its frames are a cycle apart. -/
theorem inspect_trace_cycles_exact_in_rand :
    (∃ t, cmdInspectTrace (traceFile [⟨1, 0x09, 7⟩, ⟨2, 0x0A, 9⟩]) none = .report t ∧
      t.cycleDelta = 1) ∧
    cmdInspectTrace (traceFile [⟨1, 0x09, 7⟩, ⟨2, 0x0A, 9⟩]) (some 1) =
      .frame ⟨1, 2, 0x0A, "OP_RAND", 9⟩ := by
  let bytes := imageOf [encode 0x09 0 0 0, encode 0x0A 1 0 0, 0]
  have hframes : (cmdRecord bytes (fun _ => 7) (fun _ => 9) 3).bind RecordOutcome.frames =
      some [⟨1, 0x09, 7⟩, ⟨2, 0x0A, 9⟩] := by
    decide +kernel
  obtain ⟨r, vm, hrec⟩ := halted_of_frames hframes
  obtain ⟨⟨t, ht, hcycles⟩, -, hshown⟩ :=
    inspect_trace_cycles_exact bytes _ _ 3 r vm _ hrec (by decide)
  obtain rfl := TraceInspection.report.inj (ht.symm.trans (inspect_traceFile _))
  obtain ⟨-, -, hdelta, -⟩ := hcycles 1 2 rfl rfl
  obtain ⟨q, hq, hframe⟩ := hshown 1
  refine ⟨⟨_, ht, UInt64.toNat_inj.mp hdelta⟩, ?_⟩
  cases q with
  | input => exact absurd hq (by decide)
  | random => exact hframe

end RetroVM

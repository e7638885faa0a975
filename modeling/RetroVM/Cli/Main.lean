import RetroVM.Debug.NumericArg

/-!
# The command line (`main.cpp`, `main`)

`main` looks at its first argument for the command, takes the paths the command needs from the next
ones, and reads what is left as options: `--seed=N`, `--at-frame=N` and `--frame=N`, of which the
last one counts, `--trace` and `--batch` with a path each, or numbers by position. Numbers go
through `strtoull` in base 10, which skips white space and takes a sign. Commands without options
do not look at what is left.

Results:
* `ranged_iff`: the texts that are read as a number in a range.
* **`command_lines_exact`**: the command lines that are accepted, and as what.
* **`accepted_commands_iff`**: what reaches the commands.
-/

namespace RetroVM

open Words

/-! ## Commands -/

/-- What `main` calls, and with which arguments. -/
inductive Invocation where
  | demo
  | run (bin : List Char)
  | assemble (src dst : List Char)
  | record (bin : List Char) (seed : UInt32)
  | replay (bin trace : List Char)
  | benchmark (n : Nat)
  | benchBack (n depth : Nat)
  | benchDispatchCmp (n : Nat)
  | benchBackSweep (n : Nat)
  | snapshot (bin : List Char) (interval : UInt32)
  | save (bin trace state : List Char) (atFrame : Nat)
  | restore (bin trace state : List Char)
  | debug (bin traceArg batchArg : List Char)
  | inspectTrace (trace : List Char) (frameIdx : Option Nat)
  | inspect (state : List Char)
  | inspectDiff (a b : List Char)
  deriving DecidableEq

/-- The modes of `main`. -/
inductive Mode where
  | run | asm | record | replay | benchmark | benchBack | benchDispatchCmp | benchBackSweep
  | snapshot | save | restore | debug | trace | inspect
  deriving DecidableEq

/-- What `mode` is compared with. -/
def Mode.names : Mode → List String
  | .run => ["run"]
  | .asm => ["asm", "assemble"]
  | .record => ["record"]
  | .replay => ["replay"]
  | .benchmark => ["--benchmark", "benchmark"]
  | .benchBack => ["--bench-back", "bench-back"]
  | .benchDispatchCmp => ["--bench-dispatch-cmp", "bench-dispatch-cmp"]
  | .benchBackSweep => ["--bench-back-sweep", "bench-back-sweep"]
  | .snapshot => ["snapshot", "snap"]
  | .save => ["save"]
  | .restore => ["restore"]
  | .debug => ["debug"]
  | .trace => ["trace"]
  | .inspect => ["inspect"]

/-- The modes, in the order they are tried. -/
def Mode.all : List Mode :=
  [.run, .asm, .record, .replay, .benchmark, .benchBack, .benchDispatchCmp, .benchBackSweep,
    .snapshot, .save, .restore, .debug, .trace, .inspect]

/-- The mode with a name. -/
def Mode.ofName (name : List Char) : Option Mode :=
  Mode.all.find? fun m => m.names.any fun s => s.toList = name

/-- What `main` complains of, before it exits with 1. -/
inductive ArgError where
  /-- `missing`, and the arguments it wants. -/
  | missing (mode : Mode)
  /-- `unknown arg`. -/
  | unknownArg (mode : Mode) (arg : List Char)
  /-- `requires a value`, or a path. -/
  | requiresValue (mode : Mode) (flag : List Char)
  /-- `invalid`, with what was expected. -/
  | invalid (mode : Mode) (arg : List Char)
  /-- The usage text. -/
  | usage
  deriving DecidableEq

/-! ## Options -/

/-- A number between `lo` and `hi`, read by `strtoull`. -/
def ranged (lo hi : Nat) (s : List Char) : Option Nat :=
  let (parsed, rest) := strtoull 10 s
  if rest.length = s.length ∨ rest ≠ [] then none
  else if parsed.toNat < lo ∨ hi < parsed.toNat then none
  else some parsed.toNat

/-- A number by position, if it is there. -/
def numberOr (mode : Mode) (lo hi fallback : Nat) : List (List Char) → Except ArgError Nat
  | [] => .ok fallback
  | arg :: _ =>
    match ranged lo hi arg with
    | none => .error (.invalid mode arg)
    | some n => .ok n

/-- The loop over `--flag=N` arguments; `found` is the number of the last one so far. -/
def flagLoop (mode : Mode) (flag : List Char) (hi : Nat) :
    Option Nat → List (List Char) → Except ArgError (Option Nat)
  | found, [] => .ok found
  | _, arg :: rest =>
    match flag.isPrefixOf? arg with
    | none => .error (.unknownArg mode arg)
    | some [] => .error (.requiresValue mode flag)
    | some digits =>
      match ranged 0 hi digits with
      | none => .error (.invalid mode arg)
      | some n => flagLoop mode flag hi (some n) rest

/-- The loop over `--trace` and `--batch`. -/
def pathLoop : List Char → List Char → List (List Char) → Except ArgError (List Char × List Char)
  | traceArg, batchArg, [] => .ok (traceArg, batchArg)
  | _, _, [arg] =>
    if arg = "--trace".toList ∨ arg = "--batch".toList then .error (.requiresValue .debug arg)
    else .error (.unknownArg .debug arg)
  | traceArg, batchArg, arg :: path :: rest =>
    if arg = "--trace".toList then pathLoop path batchArg rest
    else if arg = "--batch".toList then pathLoop traceArg path rest
    else .error (.unknownArg .debug arg)

/-- `kRecordRandSeed`. -/
def kRecordRandSeed : Nat := 0xC0FFEE

/-- `kSweepItersDefault`. -/
def kSweepItersDefault : Nat := 200

/-- What a mode makes of the arguments behind it. -/
def Mode.parse : Mode → List (List Char) → Except ArgError Invocation
  | .run, bin :: _ => .ok (.run bin)
  | .asm, src :: dst :: _ => .ok (.assemble src dst)
  | .record, bin :: args => do
    let seed ← flagLoop .record "--seed=".toList 0xFFFFFFFF none args
    return .record bin (UInt32.ofNat (seed.getD kRecordRandSeed))
  | .replay, bin :: tracePath :: _ => .ok (.replay bin tracePath)
  | .benchmark, args => do
    let n ← numberOr .benchmark 1 100000000 1000 args
    return .benchmark n
  | .benchBack, args => do
    let n ← numberOr .benchBack 1 100000000 1000 args
    let depth ← numberOr .benchBack 1 255 200 args.tail
    return .benchBack n depth
  | .benchDispatchCmp, args => do
    let n ← numberOr .benchDispatchCmp 1 100000000 1000 args
    return .benchDispatchCmp n
  | .benchBackSweep, args => do
    let n ← numberOr .benchBackSweep 1 100000000 kSweepItersDefault args
    return .benchBackSweep n
  | .snapshot, bin :: args => do
    let interval ← numberOr .snapshot 1 10000000 10 args
    return .snapshot bin (UInt32.ofNat interval)
  | .save, bin :: tracePath :: state :: args => do
    let atFrame ← flagLoop .save "--at-frame=".toList (2 ^ 64 - 1) none args
    return .save bin tracePath state (atFrame.getD 1)
  | .restore, bin :: tracePath :: state :: _ => .ok (.restore bin tracePath state)
  | .debug, bin :: args => do
    let (traceArg, batchArg) ← pathLoop [] [] args
    return .debug bin traceArg batchArg
  | .trace, tracePath :: args => do
    let frameIdx ← flagLoop .trace "--frame=".toList (2 ^ 64 - 1) none args
    return .inspectTrace tracePath frameIdx
  | .inspect, state :: args =>
    if state = "--diff".toList then
      match args with
      | a :: b :: _ => .ok (.inspectDiff a b)
      | _ => .error (.missing .inspect)
    else .ok (.inspect state)
  | mode, _ => .error (.missing mode)

/-- `main` up to the call of a command; `argv` is without the name of the program. -/
def parseArgs : List (List Char) → Except ArgError Invocation
  | [] => .ok .demo
  | name :: args =>
    match Mode.ofName name with
    | none => .error .usage
    | some mode => mode.parse args

/-! ## Numbers -/

/-- A number between `lo` and `hi`, as it can be written: white space, then a spelling. -/
def WritesNumber (lo hi : Nat) (s : List Char) (n : Nat) : Prop :=
  ∃ gap, ∃ sp : Spelling 10, Gap isspace gap ∧ s = gap ++ sp.text ∧ sp.read.toNat = n ∧
    lo ≤ n ∧ n ≤ hi

/-- `strtoull` skips the white space in front; a text with no number is left as it was. -/
theorem strtoull_dropWhile (base : Nat) (s : List Char) :
    (s.dropWhile isspace ≠ [] ∧ strtoull base s = strtoull base (s.dropWhile isspace)) ∨
      (strtoull base s = (0, s) ∧
        strtoull base (s.dropWhile isspace) = (0, s.dropWhile isspace)) := by
  have hidem : (s.dropWhile isspace).dropWhile isspace = s.dropWhile isspace :=
    dropWhile_run (s := []) (fun _ h => nomatch h) fun _ hc => head?_dropWhile hc
  unfold strtoull
  rw [hidem]
  by_cases hnil : s.dropWhile isspace = []
  · rw [hnil]
    exact .inr ⟨rfl, rfl⟩
  · by_cases hlen : (Numerals.scan base 0 (skipPrefix base (sign (s.dropWhile isspace)).2)).2.length
        = (skipPrefix base (sign (s.dropWhile isspace)).2).length
    · exact .inr ⟨if_pos hlen, if_pos hlen⟩
    · refine .inl ⟨hnil, ?_⟩
      simp only [if_neg hlen]

theorem strtoull_gap {gap : List Char} (hgap : Gap isspace gap) (sp : Spelling 10) :
    strtoull 10 (gap ++ sp.text) = (sp.read, []) := by
  have hdrop : (gap ++ sp.text).dropWhile isspace = sp.text :=
    dropWhile_run hgap fun _ hc => sp.head_text hc
  rcases strtoull_dropWhile 10 (gap ++ sp.text) with ⟨-, heq⟩ | ⟨-, hnone⟩
  · rw [heq, hdrop, strtoull_text]
  · rw [hdrop, strtoull_text] at hnone
    exact absurd (congrArg Prod.snd hnone).symm sp.text_ne_nil

/-- **The texts that are read as a number in a range.** -/
theorem ranged_iff {lo hi n : Nat} {s : List Char} :
    ranged lo hi s = some n ↔ WritesNumber lo hi s n := by
  constructor
  · intro h
    unfold ranged at h
    rcases hr : strtoull 10 s with ⟨v, rest⟩
    simp only [hr] at h
    split at h
    · cases h
    next hread =>
      obtain ⟨hlen, hrest⟩ := not_or.mp hread
      obtain rfl : rest = [] := not_not.mp hrest
      split at h
      · cases h
      next hrange =>
        obtain ⟨hlo, hhi⟩ := not_or.mp hrange
        obtain rfl := Option.some.inj h
        rcases strtoull_dropWhile 10 s with ⟨hne, heq⟩ | ⟨hnone, -⟩
        · have hend : (strtoull 10 (s.dropWhile isspace)).2 = [] := by
            rw [← heq, hr]
          obtain ⟨sp, hsp⟩ := spelling_of_strtoull hne (fun _ hc => head?_dropWhile hc) hend
          refine ⟨s.takeWhile isspace, sp, fun c hc => ?_, ?_, ?_, by omega, by omega⟩
          · exact List.mem_takeWhile_imp hc
          · rw [← hsp, List.takeWhile_append_dropWhile]
          · rw [hsp, strtoull_text] at heq
            rw [heq] at hr
            exact congrArg (fun r => UInt64.toNat r.1) hr
        · rw [hnone] at hr
          obtain rfl : s = [] := congrArg Prod.snd hr
          exact absurd rfl hlen
  · rintro ⟨gap, sp, hgap, rfl, rfl, hlo, hhi⟩
    unfold ranged
    rw [strtoull_gap hgap]
    have hlen : ¬ ([] : List Char).length = (gap ++ sp.text).length := by
      intro hzero
      have happ := List.length_eq_zero_iff.mp hzero.symm
      exact sp.text_ne_nil (List.append_eq_nil_iff.mp happ).2
    simp only
    rw [if_neg (not_or.mpr ⟨hlen, not_not_intro rfl⟩), if_neg (by omega)]

/-! ## The grammar -/

/-- `--flag=N` arguments; `last` is the number of the last one. -/
def WritesFlags (flag : List Char) (hi : Nat) (args : List (List Char)) (last : Option Nat) :
    Prop :=
  ∃ ns, List.Forall₂ (fun arg n => ∃ s, arg = flag ++ s ∧ WritesNumber 0 hi s n) args ns ∧
    ns.getLast? = last

/-- `--trace` and `--batch`, with the path behind either. -/
abbrev PathOption := Bool × List Char

/-- What is written of one. -/
def PathOption.args (o : PathOption) : List (List Char) :=
  [if o.1 then "--trace".toList else "--batch".toList, o.2]

/-- The path of the last option of a kind. -/
def lastPath (kind : Bool) (opts : List PathOption) : Option (List Char) :=
  ((opts.filter fun o => o.1 = kind).map Prod.snd).getLast?

/-- A number by position: none is the default, and what is behind it does not matter. -/
def WritesOr (lo hi fallback : Nat) (args : List (List Char)) (n : Nat) : Prop :=
  (args = [] ∧ n = fallback) ∨ ∃ s rest, args = s :: rest ∧ WritesNumber lo hi s n

/-- The arguments a mode accepts, and what they stand for. -/
def Mode.Accepts : Mode → List (List Char) → Invocation → Prop
  | .run, args, inv => ∃ bin rest, args = bin :: rest ∧ inv = .run bin
  | .asm, args, inv => ∃ src dst rest, args = src :: dst :: rest ∧ inv = .assemble src dst
  | .record, args, inv => ∃ bin flags seed, args = bin :: flags ∧
      WritesFlags "--seed=".toList 0xFFFFFFFF flags seed ∧
        inv = .record bin (UInt32.ofNat (seed.getD 0xC0FFEE))
  | .replay, args, inv => ∃ bin trace rest, args = bin :: trace :: rest ∧ inv = .replay bin trace
  | .benchmark, args, inv => ∃ n, WritesOr 1 100000000 1000 args n ∧ inv = .benchmark n
  | .benchBack, args, inv => ∃ n depth, WritesOr 1 100000000 1000 args n ∧
      WritesOr 1 255 200 args.tail depth ∧ inv = .benchBack n depth
  | .benchDispatchCmp, args, inv =>
      ∃ n, WritesOr 1 100000000 1000 args n ∧ inv = .benchDispatchCmp n
  | .benchBackSweep, args, inv =>
      ∃ n, WritesOr 1 100000000 200 args n ∧ inv = .benchBackSweep n
  | .snapshot, args, inv => ∃ bin rest interval, args = bin :: rest ∧
      WritesOr 1 10000000 10 rest interval ∧ inv = .snapshot bin (UInt32.ofNat interval)
  | .save, args, inv => ∃ bin trace state flags atFrame, args = bin :: trace :: state :: flags ∧
      WritesFlags "--at-frame=".toList (2 ^ 64 - 1) flags atFrame ∧
        inv = .save bin trace state (atFrame.getD 1)
  | .restore, args, inv => ∃ bin trace state rest, args = bin :: trace :: state :: rest ∧
      inv = .restore bin trace state
  | .debug, args, inv => ∃ (bin : List Char) (opts : List PathOption),
      args = bin :: opts.flatMap PathOption.args ∧
        inv = .debug bin ((lastPath true opts).getD []) ((lastPath false opts).getD [])
  | .trace, args, inv => ∃ trace flags frameIdx, args = trace :: flags ∧
      WritesFlags "--frame=".toList (2 ^ 64 - 1) flags frameIdx ∧
        inv = .inspectTrace trace frameIdx
  | .inspect, args, inv =>
      (∃ a b rest, args = "--diff".toList :: a :: b :: rest ∧ inv = .inspectDiff a b) ∨
        ∃ state rest, args = state :: rest ∧ state ≠ "--diff".toList ∧ inv = .inspect state

/-- The command lines of the program. -/
def CommandLine (argv : List (List Char)) (inv : Invocation) : Prop :=
  (argv = [] ∧ inv = .demo) ∨
    ∃ mode : Mode, ∃ name ∈ mode.names, ∃ args, argv = name.toList :: args ∧ mode.Accepts args inv

/-! ## What is accepted -/

section Accepted

variable {args : List (List Char)} {inv : Invocation}

theorem bind_eq_ok {ε α β : Type} {x : Except ε α} {f : α → Except ε β} {b : β} :
    (x >>= f) = .ok b ↔ ∃ a, x = .ok a ∧ f a = .ok b := by
  cases x with
  | error e => exact ⟨fun h => (nomatch h), fun ⟨a, ha, _⟩ => (nomatch ha)⟩
  | ok a => exact ⟨fun h => ⟨a, rfl, h⟩, fun ⟨a', ha, h⟩ => Except.ok.inj ha ▸ h⟩

theorem isPrefixOf?_iff {p l t : List Char} : p.isPrefixOf? l = some t ↔ l = p ++ t := by
  induction p generalizing l with
  | nil => simp [List.isPrefixOf?]
  | cons c p ih =>
    cases l with
    | nil => simp [List.isPrefixOf?]
    | cons d l =>
      unfold List.isPrefixOf?
      by_cases hcd : c = d
      · subst hcd
        simp [ih]
      · have hbeq : (c == d) = false := beq_false_of_ne hcd
        simp [hbeq, Ne.symm hcd]

theorem numberOr_iff {mode : Mode} {lo hi fallback n : Nat} :
    numberOr mode lo hi fallback args = .ok n ↔ WritesOr lo hi fallback args n := by
  unfold WritesOr
  cases args with
  | nil => simp [numberOr, eq_comm]
  | cons s rest =>
    have hranged : numberOr mode lo hi fallback (s :: rest) = .ok n ↔ ranged lo hi s = some n := by
      rw [numberOr]
      cases hr : ranged lo hi s with
      | none => exact ⟨fun h => (nomatch h), fun h => (nomatch h)⟩
      | some n' => exact ⟨fun h => congrArg some (Except.ok.inj h), fun h =>
          congrArg Except.ok (Option.some.inj h)⟩
    rw [hranged, ranged_iff]
    constructor
    · intro h
      exact .inr ⟨s, rest, rfl, h⟩
    · rintro (⟨hnil, -⟩ | ⟨s', rest', heq, h⟩)
      · cases hnil
      · obtain ⟨rfl, rfl⟩ := List.cons.inj heq
        exact h

/-- The last of a list behind its head. -/
theorem getLast?_cons_or {n : Nat} {ns : List Nat} {found : Option Nat} :
    (n :: ns).getLast?.or found = ns.getLast?.or (some n) := by
  rw [List.getLast?_cons]
  cases ns.getLast? <;> rfl

/-- The loop over flags, `found` the number before it. -/
theorem flagLoop_iff {mode : Mode} {flag : List Char} {hi : Nat} {found r : Option Nat} :
    flagLoop mode flag hi found args = .ok r ↔
      ∃ ns, List.Forall₂ (fun arg n => ∃ s, arg = flag ++ s ∧ WritesNumber 0 hi s n) args ns ∧
        ns.getLast?.or found = r := by
  induction args generalizing found with
  | nil =>
    constructor
    · intro h
      exact ⟨[], .nil, Except.ok.inj h⟩
    · rintro ⟨ns, hns, rfl⟩
      cases hns
      rfl
  | cons arg rest ih =>
    constructor
    · intro h
      unfold flagLoop at h
      split at h
      · cases h
      · cases h
      next digits _ hprefix =>
        split at h
        · cases h
        next n hn =>
          obtain ⟨ns, hns, hlast⟩ := ih.mp h
          refine ⟨n :: ns, .cons ⟨digits, isPrefixOf?_iff.mp hprefix, ranged_iff.mp hn⟩ hns, ?_⟩
          rw [getLast?_cons_or, hlast]
    · rintro ⟨ns, hns, hlast⟩
      obtain _ | @⟨_, n, _, ns, ⟨s, rfl, hn⟩, hrest⟩ := hns
      obtain ⟨c, t, rfl⟩ : ∃ c t, s = c :: t := by
        obtain ⟨gap, sp, -, rfl, -⟩ := hn
        exact List.exists_cons_of_ne_nil fun h => sp.text_ne_nil (List.append_eq_nil_iff.mp h).2
      have hloop : flagLoop mode flag hi found ((flag ++ c :: t) :: rest) =
          flagLoop mode flag hi (some n) rest := by
        rw [flagLoop, isPrefixOf?_iff.mpr rfl]
        simp only [ranged_iff.mpr hn]
      rw [hloop]
      exact ih.mpr ⟨ns, hrest, by rw [← hlast, getLast?_cons_or]⟩

theorem flags_iff {mode : Mode} {flag : List Char} {hi : Nat} {r : Option Nat} :
    flagLoop mode flag hi none args = .ok r ↔ WritesFlags flag hi args r := by
  rw [flagLoop_iff]
  simp only [Option.or_none]
  rfl

theorem lastPath_cons (kind : Bool) (o : PathOption) (opts : List PathOption)
    (before : List Char) :
    (lastPath kind (o :: opts)).getD before =
      (lastPath kind opts).getD (if o.1 = kind then o.2 else before) := by
  unfold lastPath
  by_cases h : o.1 = kind
  · rw [List.filter_cons_of_pos (by simpa using h), List.map_cons, List.getLast?_cons, if_pos h]
    rfl
  · rw [List.filter_cons_of_neg (by simpa using h), if_neg h]

/-- One round of the loop over `--trace` and `--batch`. -/
theorem pathLoop_cons {traceArg batchArg arg path : List Char} {r : List Char × List Char} :
    pathLoop traceArg batchArg (arg :: path :: args) = .ok r ↔
      ∃ o : PathOption, arg :: path :: args = o.args ++ args ∧
        pathLoop (if o.1 = true then o.2 else traceArg) (if o.1 = false then o.2 else batchArg)
          args = .ok r := by
  constructor
  · intro h
    unfold pathLoop at h
    split at h
    next harg => exact ⟨(true, path), by rw [harg]; rfl, h⟩
    next =>
      split at h
      next harg => exact ⟨(false, path), by rw [harg]; rfl, h⟩
      next => cases h
  · rintro ⟨⟨kind, p⟩, hargs, h⟩
    cases kind with
    | true =>
      obtain ⟨rfl, hp⟩ := List.cons.inj hargs
      obtain ⟨rfl, -⟩ := List.cons.inj hp
      exact h
    | false =>
      obtain ⟨rfl, hp⟩ := List.cons.inj hargs
      obtain ⟨rfl, -⟩ := List.cons.inj hp
      exact h

/-- The loop over `--trace` and `--batch`, with the paths before it. -/
theorem pathLoop_iff {traceArg batchArg traceArg' batchArg' : List Char} :
    pathLoop traceArg batchArg args = .ok (traceArg', batchArg') ↔
      ∃ opts : List PathOption, args = opts.flatMap PathOption.args ∧
        (lastPath true opts).getD traceArg = traceArg' ∧
        (lastPath false opts).getD batchArg = batchArg' := by
  induction args using List.twoStepInduction generalizing traceArg batchArg with
  | nil =>
    constructor
    · intro h
      obtain ⟨rfl, rfl⟩ := Prod.mk.inj (Except.ok.inj h)
      exact ⟨[], rfl, rfl, rfl⟩
    · rintro ⟨opts, hargs, rfl, rfl⟩
      cases opts with
      | nil => rfl
      | cons o opts => cases hargs
  | singleton arg =>
    constructor
    · intro h
      unfold pathLoop at h
      split at h <;> cases h
    · rintro ⟨opts, hargs, -, -⟩
      cases opts with
      | nil => cases hargs
      | cons o opts => cases hargs
  | cons_cons arg path rest ih =>
    rw [pathLoop_cons]
    constructor
    · rintro ⟨o, hargs, h⟩
      obtain ⟨opts, rfl, ht, hb⟩ := ih.mp h
      exact ⟨o :: opts, hargs, by rw [lastPath_cons, ht], by rw [lastPath_cons, hb]⟩
    · rintro ⟨opts, hargs, ht, hb⟩
      cases opts with
      | nil => cases hargs
      | cons o opts =>
        rw [lastPath_cons] at ht hb
        have hrest : rest = opts.flatMap PathOption.args := congrArg (List.drop 2) hargs
        exact ⟨o, hrest ▸ hargs, ih.mpr ⟨opts, hrest, ht, hb⟩⟩

theorem map_eq_ok {ε α β : Type} {x : Except ε α} {f : α → β} {b : β} :
    f <$> x = .ok b ↔ ∃ a, x = .ok a ∧ b = f a := by
  cases x with
  | error e => exact ⟨fun h => (nomatch h), fun ⟨a, ha, _⟩ => (nomatch ha)⟩
  | ok a => exact ⟨fun h => ⟨a, rfl, (Except.ok.inj h).symm⟩, fun ⟨a', ha, h⟩ =>
      h ▸ congrArg (f <$> ·) ha⟩

/-- **A mode accepts what its grammar says**, one mode after the other. -/
theorem parse_iff (mode : Mode) : mode.parse args = .ok inv ↔ mode.Accepts args inv := by
  unfold Mode.Accepts
  cases mode with
  | run =>
    cases args with
    | nil => simp [Mode.parse]
    | cons bin rest => simp [Mode.parse, eq_comm]
  | asm =>
    match args with
    | [] => simp [Mode.parse]
    | [_] => simp [Mode.parse]
    | src :: dst :: rest => simp [Mode.parse, eq_comm]
  | record =>
    cases args with
    | nil => simp [Mode.parse]
    | cons bin flags => simp [Mode.parse, map_eq_ok, flags_iff, kRecordRandSeed]
  | replay =>
    match args with
    | [] => simp [Mode.parse]
    | [_] => simp [Mode.parse]
    | bin :: tracePath :: rest => simp [Mode.parse, eq_comm]
  | benchmark => simp [Mode.parse, map_eq_ok, numberOr_iff]
  | benchBack => simp [Mode.parse, bind_eq_ok, map_eq_ok, numberOr_iff]
  | benchDispatchCmp => simp [Mode.parse, map_eq_ok, numberOr_iff]
  | benchBackSweep => simp [Mode.parse, map_eq_ok, numberOr_iff, kSweepItersDefault]
  | snapshot =>
    cases args with
    | nil => simp [Mode.parse]
    | cons bin rest => simp [Mode.parse, map_eq_ok, numberOr_iff]
  | save =>
    match args with
    | [] => simp [Mode.parse]
    | [_] => simp [Mode.parse]
    | [_, _] => simp [Mode.parse]
    | bin :: tracePath :: state :: flags => simp [Mode.parse, map_eq_ok, flags_iff]
  | restore =>
    match args with
    | [] => simp [Mode.parse]
    | [_] => simp [Mode.parse]
    | [_, _] => simp [Mode.parse]
    | bin :: tracePath :: state :: rest => simp [Mode.parse, eq_comm]
  | debug =>
    cases args with
    | nil => simp [Mode.parse]
    | cons bin rest => simp [Mode.parse, map_eq_ok, pathLoop_iff]
  | trace =>
    cases args with
    | nil => simp [Mode.parse]
    | cons tracePath flags => simp [Mode.parse, map_eq_ok, flags_iff]
  | inspect =>
    cases args with
    | nil => simp [Mode.parse]
    | cons state rest =>
      by_cases hdiff : state = "--diff".toList
      · subst hdiff
        match rest with
        | [] => simp [Mode.parse]
        | [_] => simp [Mode.parse]
        | a :: b :: rest => simp [Mode.parse, eq_comm]
      · have hparse : Mode.inspect.parse (state :: rest) = .ok (.inspect state) := if_neg hdiff
        rw [hparse]
        constructor
        · intro h
          exact .inr ⟨state, rest, rfl, hdiff, (Except.ok.inj h).symm⟩
        · rintro (⟨a, b, rest', heq, -⟩ | ⟨state', rest', heq, -, rfl⟩)
          · exact absurd (List.cons.inj heq).1 hdiff
          · rw [(List.cons.inj heq).1]

/-- A name is the name of one mode. -/
theorem ofName_iff {name : List Char} {mode : Mode} :
    Mode.ofName name = some mode ↔ ∃ s ∈ mode.names, s.toList = name := by
  constructor
  · intro h
    unfold Mode.ofName at h
    have hany := List.find?_some h
    obtain ⟨s, hs, hname⟩ := List.any_eq_true.mp hany
    exact ⟨s, hs, of_decide_eq_true hname⟩
  · rintro ⟨s, hs, rfl⟩
    have hnames : ∀ s ∈ mode.names, Mode.ofName s.toList = some mode := by
      cases mode <;> decide
    exact hnames s hs

theorem parseArgs_cons {name : List Char} : parseArgs (name :: args) = .ok inv ↔
    ∃ mode, (∃ s ∈ Mode.names mode, s.toList = name) ∧ mode.Accepts args inv := by
  constructor
  · intro h
    rw [parseArgs] at h
    split at h
    · cases h
    next mode hmode => exact ⟨mode, ofName_iff.mp hmode, (parse_iff mode).mp h⟩
  · rintro ⟨mode, hname, haccepts⟩
    rw [parseArgs, ofName_iff.mpr hname]
    exact (parse_iff mode).mpr haccepts

end Accepted

/-- **The command lines that are accepted, and as what.** `main` calls a command with given
arguments iff the command line is one of the grammar for it: the mode under one of its names, the
paths it needs, numbers in their ranges, spelled with white space in front or a sign if need be,
and options none of which is malformed. -/
theorem command_lines_exact (argv : List (List Char)) (inv : Invocation) :
    parseArgs argv = .ok inv ↔ CommandLine argv inv := by
  unfold CommandLine
  cases argv with
  | nil =>
    constructor
    · intro h
      exact .inl ⟨rfl, (Except.ok.inj h).symm⟩
    · rintro (⟨-, rfl⟩ | ⟨mode, s, -, args, heq, -⟩)
      · rfl
      · cases heq
  | cons name args =>
    rw [parseArgs_cons]
    constructor
    · rintro ⟨mode, ⟨s, hs, rfl⟩, haccepts⟩
      exact .inr ⟨mode, s, hs, args, rfl, haccepts⟩
    · rintro (⟨hnil, -⟩ | ⟨mode, s, hs, args', heq, haccepts⟩)
      · cases hnil
      · obtain ⟨rfl, rfl⟩ := List.cons.inj heq
        exact ⟨mode, ⟨s, hs, rfl⟩, haccepts⟩

/-! ## What reaches the commands -/

/-- The arguments of a command are what the command can be called with from the command line. -/
def Invocation.InRange : Invocation → Prop
  | .benchmark n => 1 ≤ n ∧ n ≤ 100000000
  | .benchBack n depth => (1 ≤ n ∧ n ≤ 100000000) ∧ 1 ≤ depth ∧ depth < 256
  | .benchDispatchCmp n => 1 ≤ n ∧ n ≤ 100000000
  | .benchBackSweep n => 1 ≤ n ∧ n ≤ 100000000
  | .snapshot _ interval => 1 ≤ interval ∧ interval ≤ 10000000
  | .save _ _ _ atFrame => atFrame < 2 ^ 64
  | .inspectTrace _ frameIdx => ∀ n ∈ frameIdx, n < 2 ^ 64
  | .inspect state => state ≠ "--diff".toList
  | _ => True

/-- A command line for a command. -/
def Invocation.argv : Invocation → List (List Char)
  | .demo => []
  | .run bin => ["run".toList, bin]
  | .assemble src dst => ["asm".toList, src, dst]
  | .record bin seed => ["record".toList, bin, "--seed=".toList ++ Nat.toDigits 10 seed.toNat]
  | .replay bin trace => ["replay".toList, bin, trace]
  | .benchmark n => ["benchmark".toList, Nat.toDigits 10 n]
  | .benchBack n depth => ["bench-back".toList, Nat.toDigits 10 n, Nat.toDigits 10 depth]
  | .benchDispatchCmp n => ["bench-dispatch-cmp".toList, Nat.toDigits 10 n]
  | .benchBackSweep n => ["bench-back-sweep".toList, Nat.toDigits 10 n]
  | .snapshot bin interval => ["snapshot".toList, bin, Nat.toDigits 10 interval.toNat]
  | .save bin trace state atFrame =>
    ["save".toList, bin, trace, state, "--at-frame=".toList ++ Nat.toDigits 10 atFrame]
  | .restore bin trace state => ["restore".toList, bin, trace, state]
  | .debug bin traceArg batchArg =>
    ["debug".toList, bin, "--trace".toList, traceArg, "--batch".toList, batchArg]
  | .inspectTrace trace none => ["trace".toList, trace]
  | .inspectTrace trace (some n) =>
    ["trace".toList, trace, "--frame=".toList ++ Nat.toDigits 10 n]
  | .inspect state => ["inspect".toList, state]
  | .inspectDiff a b => ["inspect".toList, "--diff".toList, a, b]

theorem writesNumber_toDigits {lo hi n : Nat} (hlo : lo ≤ n) (hhi : n ≤ hi) (h64 : n < 2 ^ 64) :
    WritesNumber lo hi (Nat.toDigits 10 n) n := by
  refine ⟨[], ⟨[], [], Nat.toDigits 10 n, by simp, .inl rfl,
    Numerals.isDigits_toDigits (by decide) (by decide) n, Nat.toDigits_ne_nil⟩, Gap.nil, rfl, ?_,
    hlo, hhi⟩
  have hvalue := Numerals.value_toDigits (b := 10) (by decide) (by decide) n
  unfold Spelling.read Spelling.number
  simp only [hvalue]
  rw [if_neg (by omega), if_neg (by decide)]
  exact UInt64.toNat_ofNat_of_lt' h64

theorem WritesOr.bounds {lo hi fallback n : Nat} {args : List (List Char)}
    (h : WritesOr lo hi fallback args n) (hlo : lo ≤ fallback) (hhi : fallback ≤ hi) :
    lo ≤ n ∧ n ≤ hi := by
  rcases h with ⟨-, rfl⟩ | ⟨s, rest, -, gap, sp, -, -, -, hn⟩
  · exact ⟨hlo, hhi⟩
  · exact hn

theorem WritesFlags.bound {flag : List Char} {hi n : Nat} {args : List (List Char)}
    (h : WritesFlags flag hi args (some n)) : n ≤ hi := by
  obtain ⟨ns, hns, hlast⟩ := h
  have hall : ∀ n ∈ ns, n ≤ hi := by
    clear hlast
    induction hns with
    | nil => simp
    | cons hn _ ih =>
      obtain ⟨s, -, gap, sp, -, -, -, -, hle⟩ := hn
      exact List.forall_mem_cons.mpr ⟨hle, ih⟩
  exact hall n (List.mem_of_getLast? hlast)

theorem Mode.Accepts.inRange {mode : Mode} {args : List (List Char)} {inv : Invocation}
    (h : mode.Accepts args inv) : inv.InRange := by
  unfold Mode.Accepts at h
  cases mode with
  | benchmark =>
    obtain ⟨n, hn, rfl⟩ := h
    exact hn.bounds (by decide) (by decide)
  | benchBack =>
    obtain ⟨n, depth, hn, hdepth, rfl⟩ := h
    have hbounds := hdepth.bounds (by decide) (by decide)
    exact ⟨hn.bounds (by decide) (by decide), hbounds.1, Nat.lt_succ_of_le hbounds.2⟩
  | benchDispatchCmp =>
    obtain ⟨n, hn, rfl⟩ := h
    exact hn.bounds (by decide) (by decide)
  | benchBackSweep =>
    obtain ⟨n, hn, rfl⟩ := h
    exact hn.bounds (by decide) (by decide)
  | snapshot =>
    obtain ⟨bin, rest, interval, -, hn, rfl⟩ := h
    obtain ⟨hlo, hhi⟩ := hn.bounds (by decide) (by decide)
    have h32 : interval < 2 ^ 32 := by omega
    have hval : (UInt32.ofNat interval).toNat = interval := UInt32.toNat_ofNat_of_lt' h32
    refine ⟨UInt32.le_iff_toNat_le.mpr ?_, UInt32.le_iff_toNat_le.mpr ?_⟩
    · rw [hval]
      exact hlo
    · rw [hval]
      exact hhi
  | save =>
    obtain ⟨bin, trace, state, flags, atFrame, -, hflags, rfl⟩ := h
    cases atFrame with
    | none => exact (by decide : 1 < 2 ^ 64)
    | some n => exact Nat.lt_of_le_of_lt hflags.bound (by decide)
  | trace =>
    obtain ⟨trace, flags, frameIdx, -, hflags, rfl⟩ := h
    rintro n rfl
    exact Nat.lt_of_le_of_lt hflags.bound (by decide)
  | inspect =>
    rcases h with ⟨a, b, rest, -, rfl⟩ | ⟨state, rest, -, hne, rfl⟩
    · exact trivial
    · exact hne
  | run =>
    obtain ⟨bin, rest, -, rfl⟩ := h
    exact trivial
  | asm =>
    obtain ⟨src, dst, rest, -, rfl⟩ := h
    exact trivial
  | record =>
    obtain ⟨bin, flags, seed, -, -, rfl⟩ := h
    exact trivial
  | replay =>
    obtain ⟨bin, trace, rest, -, rfl⟩ := h
    exact trivial
  | restore =>
    obtain ⟨bin, trace, state, rest, -, rfl⟩ := h
    exact trivial
  | debug =>
    obtain ⟨bin, opts, -, rfl⟩ := h
    exact trivial

/-- One flag. -/
theorem writesFlags_one {flag s : List Char} {hi n : Nat} (h : WritesNumber 0 hi s n) :
    WritesFlags flag hi [flag ++ s] (some n) :=
  ⟨[n], .cons ⟨s, rfl, h⟩ .nil, rfl⟩

theorem writesOr_one {lo hi fallback n : Nat} {s : List Char} {rest : List (List Char)}
    (h : WritesNumber lo hi s n) : WritesOr lo hi fallback (s :: rest) n :=
  .inr ⟨s, rest, rfl, h⟩

/-- **Every command has a command line.** -/
theorem parseArgs_argv {inv : Invocation} (h : inv.InRange) : parseArgs inv.argv = .ok inv := by
  cases inv with
  | demo => rfl
  | run bin => exact parseArgs_cons.mpr ⟨.run, ⟨"run", by decide, rfl⟩, bin, [], rfl, rfl⟩
  | assemble src dst =>
    exact parseArgs_cons.mpr ⟨.asm, ⟨"asm", by decide, rfl⟩, src, dst, [], rfl, rfl⟩
  | record bin seed =>
    have hn : WritesNumber 0 0xFFFFFFFF (Nat.toDigits 10 seed.toNat) seed.toNat := by
      have h32 := seed.toNat_lt
      exact writesNumber_toDigits (Nat.zero_le _) (by omega) (by omega)
    refine parseArgs_cons.mpr ⟨.record, ⟨"record", by decide, rfl⟩, bin, _, _, rfl,
      writesFlags_one hn, ?_⟩
    rw [Option.getD_some, UInt32.ofNat_toNat]
  | replay bin trace =>
    exact parseArgs_cons.mpr ⟨.replay, ⟨"replay", by decide, rfl⟩, bin, trace, [], rfl, rfl⟩
  | benchmark n =>
    exact parseArgs_cons.mpr ⟨.benchmark, ⟨"benchmark", by decide, rfl⟩, n,
      writesOr_one (writesNumber_toDigits h.1 h.2 (Nat.lt_of_le_of_lt h.2 (by decide))), rfl⟩
  | benchBack n depth =>
    obtain ⟨hn, hd⟩ := h
    exact parseArgs_cons.mpr ⟨.benchBack, ⟨"bench-back", by decide, rfl⟩, n, depth,
      writesOr_one (writesNumber_toDigits hn.1 hn.2 (Nat.lt_of_le_of_lt hn.2 (by decide))),
      writesOr_one (writesNumber_toDigits hd.1 (Nat.le_of_lt_succ hd.2)
        (Nat.lt_trans hd.2 (by decide))), rfl⟩
  | benchDispatchCmp n =>
    exact parseArgs_cons.mpr ⟨.benchDispatchCmp, ⟨"bench-dispatch-cmp", by decide, rfl⟩, n,
      writesOr_one (writesNumber_toDigits h.1 h.2 (Nat.lt_of_le_of_lt h.2 (by decide))), rfl⟩
  | benchBackSweep n =>
    exact parseArgs_cons.mpr ⟨.benchBackSweep, ⟨"bench-back-sweep", by decide, rfl⟩, n,
      writesOr_one (writesNumber_toDigits h.1 h.2 (Nat.lt_of_le_of_lt h.2 (by decide))), rfl⟩
  | snapshot bin interval =>
    have hlo := UInt32.le_iff_toNat_le.mp h.1
    have hhi := UInt32.le_iff_toNat_le.mp h.2
    refine parseArgs_cons.mpr ⟨.snapshot, ⟨"snapshot", by decide, rfl⟩, bin, _, interval.toNat,
      rfl, writesOr_one (writesNumber_toDigits hlo hhi (Nat.lt_of_le_of_lt hhi (by decide))), ?_⟩
    rw [UInt32.ofNat_toNat]
  | save bin trace state atFrame =>
    exact parseArgs_cons.mpr ⟨.save, ⟨"save", by decide, rfl⟩, bin, trace, state, _, _, rfl,
      writesFlags_one (writesNumber_toDigits (Nat.zero_le _) (Nat.le_sub_one_of_lt h) h), rfl⟩
  | restore bin trace state =>
    exact parseArgs_cons.mpr ⟨.restore, ⟨"restore", by decide, rfl⟩, bin, trace, state, [], rfl,
      rfl⟩
  | debug bin traceArg batchArg =>
    exact parseArgs_cons.mpr ⟨.debug, ⟨"debug", by decide, rfl⟩, bin,
      [(true, traceArg), (false, batchArg)], rfl, rfl⟩
  | inspectTrace trace frameIdx =>
    cases frameIdx with
    | none =>
      exact parseArgs_cons.mpr ⟨.trace, ⟨"trace", by decide, rfl⟩, trace, [], none, rfl,
        ⟨[], .nil, rfl⟩, rfl⟩
    | some n =>
      have hn : n < 2 ^ 64 := h n rfl
      exact parseArgs_cons.mpr ⟨.trace, ⟨"trace", by decide, rfl⟩, trace, _, some n, rfl,
        writesFlags_one (writesNumber_toDigits (Nat.zero_le _) (Nat.le_sub_one_of_lt hn) hn), rfl⟩
  | inspect state =>
    exact parseArgs_cons.mpr ⟨.inspect, ⟨"inspect", by decide, rfl⟩, .inr ⟨state, [], rfl, h, rfl⟩⟩
  | inspectDiff a b =>
    exact parseArgs_cons.mpr ⟨.inspect, ⟨"inspect", by decide, rfl⟩, .inl ⟨a, b, [], rfl, rfl⟩⟩

/-- **What reaches the commands**: everything in range does, by a command line of its own, and
nothing else, whatever the command line. A `--bench-back` gets a depth below the size of its ring,
a `snapshot` an interval that is not 0; a `.state` file called `--diff` cannot be inspected. -/
theorem accepted_commands_iff (inv : Invocation) :
    ((∃ argv, parseArgs argv = .ok inv) ↔ inv.InRange) ∧
      (parseArgs inv.argv = .ok inv ↔ inv.InRange) := by
  have hrange : ∀ argv, parseArgs argv = .ok inv → inv.InRange := by
    intro argv h
    cases argv with
    | nil =>
      obtain rfl := Except.ok.inj h
      exact trivial
    | cons name args =>
      obtain ⟨mode, -, haccepts⟩ := parseArgs_cons.mp h
      exact haccepts.inRange
  exact ⟨⟨fun ⟨argv, h⟩ => hrange argv h, fun h => ⟨inv.argv, parseArgs_argv h⟩⟩, hrange _,
    parseArgs_argv⟩

end RetroVM

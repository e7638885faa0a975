import RetroVM.Engine.State

/-!
# Hooks, sinks and what a run did (`include/retrovm/vm.hpp`)

A hook or a sink of the source is a closure over state of its own (a cursor, a writer, a ring).
Here that state is one value `ε`, handed from call to call: a hook answers or throws and returns
the new `ε`; a sink may request a halt, the one thing it can do to the VM, and returns the new
`ε`. An empty `std::function` is `none`.

`Machine` adds `history`, a ghost field no definition of this module reads: every handler entered,
every hook, observer and sink call, with its arguments, oldest first.
-/

namespace RetroVM

/-- `class TraceMismatch`. -/
structure TraceMismatch where
  expectedCycle : UInt64
  expectedOp    : UInt8
  actualCycle   : UInt64
  actualOp      : UInt8
  frameIdx      : Nat
  prematureEof  : Bool
  deriving DecidableEq

/-- A closure over `ε` that returns an `α` or throws. -/
abbrev Hooked (ε α : Type) := ε → Except TraceMismatch α × ε

/-- `struct IOHooks`; `inHook` and `randHook` are its `in` and `rand`. -/
structure IOHooks (ε : Type) where
  onNondeterministic : Option (UInt64 → UInt8 → UInt32 → Hooked ε Unit)
  inHook             : Option (UInt64 → Hooked ε UInt32)
  randHook           : Option (UInt64 → Hooked ε UInt32)

/-- The hooks `VM()` installs. stdin and the generator are value streams, read so far as the pair
says: the `n`-th `scanf`, 0 at end of input, and the `n`-th draw. -/
def hostHooks (stdin rng : Nat → UInt32) : IOHooks (Nat × Nat) where
  inHook := some fun _ e => (.ok (stdin e.1), (e.1 + 1, e.2))
  randHook := some fun _ e => (.ok (rng e.2), (e.1, e.2 + 1))
  onNondeterministic := none

/-- Hooks over `η`, next to the state `ς` of a sink they know nothing of. -/
def IOHooks.beside {η : Type} (ς : Type) (hooks : IOHooks η) : IOHooks (η × ς) where
  onNondeterministic := hooks.onNondeterministic.map fun f cycle op v e =>
    ((f cycle op v e.1).1, ((f cycle op v e.1).2, e.2))
  inHook := hooks.inHook.map fun f cycle e => ((f cycle e.1).1, ((f cycle e.1).2, e.2))
  randHook := hooks.randHook.map fun f cycle e => ((f cycle e.1).1, ((f cycle e.1).2, e.2))

/-- `SnapshotSink`: it sees the snapshot and the VM, and may request a halt. -/
abbrev SnapshotSink (ε : Type) := Snapshot → VM → ε → Option HaltReason × ε

/-- `enum class DispatchMode`. -/
inductive DispatchMode where
  | computedGoto | naiveSwitch
  deriving DecidableEq

/-- What is wired to a VM: `io_`, `snap_sink_` and `dispatch_mode_`. -/
structure Env (ε : Type) where
  hooks        : IOHooks ε
  snapSink     : Option (SnapshotSink ε)
  dispatchMode : DispatchMode

/-- What a VM that nothing was wired to runs with. -/
def hostEnv (stdin rng : Nat → UInt32) (mode : DispatchMode) : Env (Nat × Nat) :=
  ⟨hostHooks stdin rng, none, mode⟩

/-- A step of a run that a bystander can see: a handler entered, or a hook called. -/
inductive Call where
  /-- The handler of `instr`, fetched at `addr`, was entered in cycle `cycle`. -/
  | dispatch (cycle : UInt64) (addr instr : UInt32)
  /-- `io_.in` or `io_.rand` was called. -/
  | hook (op : UInt8) (cycle : UInt64)
  /-- `io_.on_nondeterministic` was called. -/
  | observe (cycle : UInt64) (op : UInt8) (value : UInt32)
  deriving DecidableEq

/-- A call of the sink: the snapshot it got, and the VM, its log drained, and the closures' state
it found. -/
structure Firing (ε : Type) where
  snapshot : Snapshot
  vm       : VM
  env      : ε

/-- Something a run did. -/
inductive Event (ε : Type) where
  | call (c : Call)
  | fire (f : Firing ε)

/-- A VM, the state of its closures, and what the run did so far. -/
structure Machine (ε : Type) where
  vm      : VM
  env     : ε
  history : List (Event ε)

/-- How `run` ends: it returns a reason, or a hook throws through it. -/
inductive Stop where
  | returned (r : HaltReason)
  | threw (e : TraceMismatch)
  deriving DecidableEq

/-- The machine `run` leaves behind, and how it ended. -/
structure Exit (ε : Type) where
  machine : Machine ε
  stop    : Stop

namespace Machine

variable {ε : Type}

/-- A machine before it has run. -/
def start (vm : VM) (env : ε) : Machine ε := ⟨vm, env, []⟩

/-- `state_`. -/
abbrev state (m : Machine ε) : VMState := m.vm.state

/-- `mem_`. -/
abbrev mem (m : Machine ε) : Memory := m.vm.mem

/-- An assignment to `state_`. -/
def setState (m : Machine ε) (s : VMState) : Machine ε := { m with vm := m.vm.setState s }

/-- An assignment to `state_.halted`. -/
def setHalted (m : Machine ε) (r : HaltReason) : Machine ε :=
  { m with vm := m.vm.requestHalt r }

/-- An assignment to `state_.regs[dst]`. -/
def setReg (m : Machine ε) (dst : Fin 8) (v : UInt32) : Machine ε :=
  m.setState { m.state with regs := assign m.state.regs dst v }

/-- The ghost record of one call. -/
def log (m : Machine ε) (c : Call) : Machine ε := { m with history := m.history ++ [.call c] }

/-- `make_snapshot`. -/
def makeSnapshot (E : Env ε) (m : Machine ε) : Machine ε :=
  match E.snapSink with
  | none => { m with vm := { m.vm with deltas := [] } }
  | some sink =>
    let (s, vm) := m.vm.takeSnapshot
    let (halt, env) := sink s vm m.env
    { vm := match halt with
        | none => vm
        | some r => vm.requestHalt r
      env
      history := m.history ++ [.fire ⟨s, vm, m.env⟩] }

end Machine

/-- The calls of a history, firings left out. -/
def calls {ε : Type} (history : List (Event ε)) : List Call :=
  history.filterMap fun
    | .call c => some c
    | .fire _ => none

/-- The firings of a history. -/
def firings {ε : Type} (history : List (Event ε)) : List (Firing ε) :=
  history.filterMap fun
    | .call _ => none
    | .fire f => some f

section History

variable {ε : Type}

@[simp] theorem calls_nil : calls ([] : List (Event ε)) = [] := rfl

@[simp] theorem firings_nil : firings ([] : List (Event ε)) = [] := rfl

@[simp] theorem calls_append (h k : List (Event ε)) : calls (h ++ k) = calls h ++ calls k :=
  List.filterMap_append

@[simp] theorem firings_append (h k : List (Event ε)) :
    firings (h ++ k) = firings h ++ firings k :=
  List.filterMap_append

@[simp] theorem calls_call (c : Call) : calls [(.call c : Event ε)] = [c] := rfl

@[simp] theorem calls_fire (f : Firing ε) : calls [.fire f] = [] := rfl

@[simp] theorem firings_call (c : Call) : firings [(.call c : Event ε)] = [] := rfl

@[simp] theorem firings_fire (f : Firing ε) : firings [.fire f] = [f] := rfl

@[simp] theorem calls_map_call (cs : List Call) : calls (cs.map (.call : Call → Event ε)) = cs := by
  unfold calls
  rw [List.filterMap_map]
  exact List.filterMap_some

@[simp] theorem firings_map_call (cs : List Call) :
    firings (cs.map (.call : Call → Event ε)) = [] := by
  unfold firings
  rw [List.filterMap_map, List.filterMap_eq_nil_iff]
  exact fun _ _ => rfl

end History

end RetroVM

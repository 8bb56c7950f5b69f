import SyscallThrottling.Impl.Mod
import SyscallThrottling.Impl.Usctm
import SyscallThrottling.Lib.Word

/-!
This module contains the way of a system call into the syscall table: the jump over `x64_sys_call`
as a CPU decodes it, and `call` of `my_usctm.c`. It also contains a load of the module from the
search for the table on.
-/

namespace Throttling

/--
Where the instruction at `addr` goes if it is the jump `0xE9`: its displacement is signed and counts
from the end of the instruction.
-/
def jumpTarget (text : Nat → UInt8) (addr : Nat) : Option Nat :=
  if text addr = 0xE9 then
    let offset := toInt (Word.ofBytes
      [text (addr + 1), text (addr + 2), text (addr + 3), text (addr + 4)])
    some (toSize (addr + instLen + offset))
  else
    none

namespace Module

variable {K : Platform}

def call (m : Module K) (nr : Fin K.nrSyscalls) : Handler :=
  m.state.sys.hackedSyscallTbl nr

/-- What the kernel runs for the system call `nr`, if the code it enters leads to `call`. -/
def x64SysCall (callAddr : Nat) (m : Module K) (nr : Fin K.nrSyscalls) : Option Handler :=
  if jumpTarget m.text m.x64SysCallAddr = some callAddr then
    some (m.call nr)
  else
    none

/-- `init_module` in the address space `sp`, with the variables the search leaves. -/
def load (sp : Space) (env : LoadEnv) (callAddr : Nat) (m : Module K)
    : Option (Usctm × Int × Module K) := do
  let g ← sp.syscallTableFinder .initial
  return (g, m.initModule { env with tableFound := g.hackedSyscallTbl ≠ 0 } callAddr)

end Module

end Throttling

import SyscallThrottling.Lib.Linearization
import SyscallThrottling.Spec.Registered

/-!
This module contains what the registry of system calls is for: a finite set of numbers, to which one
call at a time adds a number or from which it removes one.
-/

namespace Throttling

open Linearization

variable {K : Platform}

/-- An update of the registry. A registration takes two nodes, which are `granted` or not. -/
inductive HookOp (K : Platform) where
  | register (granted : Bool) (n : Fin K.nrSyscalls)
  | deregister (n : Fin K.nrSyscalls)
  deriving DecidableEq

def HookOp.apply (S : Finset (Fin K.nrSyscalls)) : HookOp K → Int × Finset (Fin K.nrSyscalls)
  | .register false _ => (-ENOMEM, S)
  | .register true n => registerKey n S
  | .deregister n => deregisterKey n S

def hooks (K : Platform) : Object (HookOp K) Int (Finset (Fin K.nrSyscalls)) where
  apply op S := op.apply S

end Throttling

import SyscallThrottling.Impl.System

/-!
This module contains the loaded module under queries: between the steps of the interleaved system
any process asks for statistics, numbers and listings.
-/

namespace Throttling

open Interleaving

variable {K : Platform}

inductive Action (K : Platform) where
  | query (env : Env) (cmd : Cmd)
  | step (l : Lbl K)

def Cmd.reports : Cmd → Bool
  | .getThreadStats _ => true
  | .getSyscallStats _ => true
  | .getAllSyscalls _ => true
  | .getAllUids _ => true
  | .getAllProgs _ => true
  | _ => false

/-- The output are the bytes that the statistics and the listings copy to user space. -/
def Action.apply (c : Cfg K) : Action K → Option (List (List UInt8) × Cfg K)
  | .query env cmd =>
    (queryIoctl env c.shared.st cmd).map fun r =>
      (if cmd.reports then r.out.map UserWrite.bytes else [],
        { c with shared := { c.shared with st := r.state } })
  | .step l => ((throttling K).step c l).map fun c => ([], c)

end Throttling

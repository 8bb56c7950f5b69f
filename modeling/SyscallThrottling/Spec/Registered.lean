import SyscallThrottling.Impl.Kernel

/-!
This module contains what the registries of uids and program names are for: two finite sets, to
which keys are added and from which they are removed.
-/

namespace Throttling

def registerKey {κ : Type} [DecidableEq κ] (k : κ) (S : Finset κ) : Int × Finset κ :=
  if k ∈ S then (-EEXIST, S) else (0, insert k S)

def deregisterKey {κ : Type} [DecidableEq κ] (k : κ) (S : Finset κ) : Int × Finset κ :=
  if k ∈ S then (0, S.erase k) else (-ENOENT, S)

def checkKey {κ : Type} [DecidableEq κ] (k : κ) (S : Finset κ) : Int :=
  if k ∈ S then 1 else 0

/-- The name that a string of user space stands for: it is cut to 15 bytes. -/
def progKey (s : List UInt8) : List UInt8 :=
  CString.truncate 15 s

/--
The commands on uids and program names. The argument of a check of a name is the fixed buffer of the
request, the other names are strings.
-/
inductive RegistryCmd where
  | registerUid (uid : UInt32)
  | deregisterUid (uid : UInt32)
  | checkUid (uid : UInt32)
  | registerProg (name : List UInt8)
  | deregisterProg (name : List UInt8)
  | checkProg (name : Comm)

structure Registered where
  uids : Finset UInt32
  names : Finset (List UInt8)

namespace Registered

def empty : Registered where
  uids := ∅
  names := ∅

def step (A : Registered) : RegistryCmd → Int × Option Int × Registered
  | .registerUid uid =>
    let (ret, uids) := registerKey uid A.uids
    (ret, none, { A with uids })
  | .deregisterUid uid =>
    let (ret, uids) := deregisterKey uid A.uids
    (ret, none, { A with uids })
  | .checkUid uid => (0, some (checkKey uid A.uids), A)
  | .registerProg name =>
    let (ret, names) := registerKey (progKey name) A.names
    (ret, none, { A with names })
  | .deregisterProg name =>
    let (ret, names) := deregisterKey (progKey name) A.names
    (ret, none, { A with names })
  | .checkProg name => (0, some (checkKey (progKey name.toList) A.names), A)

def run (A : Registered) : List RegistryCmd → List (Int × Option Int) × Registered
  | [] => ([], A)
  | cmd :: cmds =>
    let (ret, check, A) := A.step cmd
    let (outs, A) := A.run cmds
    ((ret, check) :: outs, A)

end Registered

end Throttling

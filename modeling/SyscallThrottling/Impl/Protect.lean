import SyscallThrottling.Impl.System

/-!
This module contains the write protection of the kernel: the control registers of the CPUs, the
functions of `my_usctm.c` that change them, and the loaded module on a machine that has them. The
page of the syscall table is read-only.
-/

namespace Throttling

open Interleaving

def X86_CR0_WP : UInt64 := 0x10000
def X86_CR4_CET : UInt64 := 0x800000

structure Cpu where
  cr0 : UInt64
  cr4 : UInt64
  deriving DecidableEq

namespace Cpu

def wp (c : Cpu) : Bool :=
  c.cr0 &&& X86_CR0_WP ≠ 0

def cet (c : Cpu) : Bool :=
  c.cr4 &&& X86_CR4_CET ≠ 0

/-- No CPU runs with CET and without write protection: the store that would make it do so faults. -/
def checked (c : Cpu) : Option Cpu :=
  if c.cet = true ∧ c.wp = false then none else some c

def writeCr0Forced (c : Cpu) (val : UInt64) : Option Cpu :=
  { c with cr0 := val }.checked

def writeCr4Forced (c : Cpu) (val : UInt64) : Option Cpu :=
  { c with cr4 := val }.checked

end Cpu

/-- The registers of the CPUs, and the variables of `my_usctm.c` that keep what two of them were. -/
structure Protection where
  cpus : Nat → Cpu
  cr0 : UInt64
  cr4 : UInt64

namespace Protection

variable (p : Protection) (k : Nat)

def setCpu (c : Cpu) : Protection :=
  { p with cpus := Function.update p.cpus k c }

def protectMemory : Option Protection :=
  ((p.cpus k).writeCr0Forced p.cr0).map (p.setCpu k)

def unprotectMemory : Option Protection :=
  ((p.cpus k).writeCr0Forced (p.cr0 &&& ~~~X86_CR0_WP)).map (p.setCpu k)

/-- `hasCet` tells whether the kernel defines `X86_CR4_CET`. -/
def conditionalCetDisable (hasCet : Bool) : Option Protection :=
  if hasCet = true ∧ p.cr4 &&& X86_CR4_CET ≠ 0 then
    ((p.cpus k).writeCr4Forced (p.cr4 &&& ~~~X86_CR4_CET)).map (p.setCpu k)
  else
    some p

def conditionalCetEnable (hasCet : Bool) : Option Protection :=
  if hasCet = true ∧ p.cr4 &&& X86_CR4_CET ≠ 0 then
    ((p.cpus k).writeCr4Forced p.cr4).map (p.setCpu k)
  else
    some p

def beginSyscallTableHack (hasCet : Bool) : Option Protection := do
  let p := { p with cr0 := (p.cpus k).cr0 }
  let p := { p with cr4 := (p.cpus k).cr4 }
  let p ← p.conditionalCetDisable k hasCet
  p.unprotectMemory k

def endSyscallTableHack (hasCet : Bool) : Option Protection := do
  let p ← p.protectMemory k
  p.conditionalCetEnable k hasCet

end Protection

/--
Where a thread is between `preempt_disable` in `begin_syscall_table_hack` and `preempt_enable` in
`end_syscall_table_hack`.
-/
inductive HackPc where
  | readCr0
  | readCr4
  | cetDisable
  | unprotect
  | body
  | protect
  | cetEnable
  | preemptEnable
  | fault
  deriving DecidableEq

def Thread.hacking {K : Platform} : Thread K → Bool
  | .register f =>
    match f.pc with
    | .save _ _ => true
    | .table _ => true
    | .flag _ => true
    | _ => false
  | .deregister f =>
    match f.pc with
    | .table _ => true
    | _ => false
  | _ => false

def Thread.stores {K : Platform} : Thread K → Bool
  | .register f =>
    match f.pc with
    | .table _ => true
    | _ => false
  | .deregister f =>
    match f.pc with
    | .table _ => true
    | _ => false
  | _ => false

structure Machine (K : Platform) where
  shared : Shared K
  protection : Protection

structure Runner (K : Platform) where
  thread : Thread K
  hack : Option (Nat × HackPc)

namespace Runner

variable {K : Platform}

def proceed (m : Machine K) (r : Runner K) (k : Nat) (pc : HackPc)
    : Option Protection → Machine K × Runner K × List (Event K)
  | some protection => ({ m with protection }, { r with hack := some (k, pc) }, [])
  | none => (m, { r with hack := some (k, .fault) }, [])

/-- The choice of a CPU is the one the thread is on when it can no longer be preempted. -/
def step (hasCet : Bool) (i : Nat) (ch : Choice (Task K) × Nat) (m : Machine K) (r : Runner K)
    : Option (Machine K × Runner K × List (Event K)) :=
  let p := m.protection
  match r.hack with
  | none =>
    if r.thread.hacking = true then
      some (m, { r with hack := some (ch.2, .readCr0) }, [])
    else
      (r.thread.step i ch.1 m.shared).map fun (s, t, ev) =>
        ({ m with shared := s }, { r with thread := t }, ev)
  | some (k, pc) =>
    match pc with
    | .readCr0 => some (r.proceed m k .readCr4 (some { p with cr0 := (p.cpus k).cr0 }))
    | .readCr4 => some (r.proceed m k .cetDisable (some { p with cr4 := (p.cpus k).cr4 }))
    | .cetDisable => some (r.proceed m k .unprotect (p.conditionalCetDisable k hasCet))
    | .unprotect => some (r.proceed m k .body (p.unprotectMemory k))
    | .body =>
      if r.thread.stores = true ∧ (p.cpus k).wp = true then
        some (m, { r with hack := some (k, .fault) }, [])
      else
        (r.thread.step i ch.1 m.shared).map fun (s, t, ev) =>
          ({ m with shared := s },
            { thread := t, hack := some (k, if t.hacking then .body else .protect) }, ev)
    | .protect => some (r.proceed m k .cetEnable (p.protectMemory k))
    | .cetEnable => some (r.proceed m k .preemptEnable (p.conditionalCetEnable k hasCet))
    | .preemptEnable => some (m, { r with hack := none }, [])
    | .fault => none

end Runner

def protectedThrottling (K : Platform) (hasCet : Bool)
    : System (Machine K) (Runner K) EnvStep (Choice (Task K) × Nat) (Event K) where
  env e m := (m.shared.envStep e).map fun (s, ev) => ({ m with shared := s }, ev)
  thread := Runner.step hasCet

abbrev MachineCfg (K : Platform) := Config (Machine K) (Runner K) (Event K)

/-- The module is loaded, and `original` are the registers the CPUs run with. -/
def loadedMachine (K : Platform) (T : SyscallTable K) (stats : Ptr → SyscallStats) (now : Nat)
    (original : Nat → Cpu) (cr0 cr4 : UInt64) : MachineCfg K where
  shared :=
    { shared := (loaded K T stats now).shared
      protection := { cpus := original, cr0, cr4 } }
  locals _ := { thread := .idle, hack := none }
  trace := []

end Throttling

import SyscallThrottling.Impl.Interface
import SyscallThrottling.Lib.Interleaving

/-!
This module contains the listings `get_all_*` as sequences of steps, the read of the counter and the
visits of the slots, while ioctls change the registries.
-/

namespace Throttling

open Interleaving

variable {K : Platform}

namespace Kind

abbrev slots (K : Platform) : Kind → Nat
  | .syscalls => K.nrSyscalls
  | .uids => 256
  | .progs => 256

def inMax (s : State K) (max : Int) : Kind → Int
  | .syscalls => min s.sys.sysLen max
  | .uids => toInt (min s.uids.uidsLen max)
  | .progs => toInt (min s.progs.progNameLen max)

def bufferSize (inMax : Int) : Kind → Nat
  | .syscalls => toSize (inMax * 4)
  | .uids => toSize (inMax * 4)
  | .progs => toSize inMax * 16

end Kind

/-- Whether `copyLoop` meets an element after it has copied `inMax`. -/
def loopBreaks {α : Type} (p : α → Bool) (inMax : Int) : Nat → List α → Bool
  | _, [] => false
  | copied, x :: xs =>
    if inMax ≤ copied then
      true
    else if p x then
      loopBreaks p inMax (copied + 1) xs
    else
      loopBreaks p inMax copied xs

namespace State

def visitSlot (s : State K) (env : Env) (inMax : Int) (copied : Nat)
    : (kind : Kind) → Fin (kind.slots K) → List Entity
  | .syscalls, i =>
    copyLoop (fun i : Fin K.nrSyscalls => s.sys.syscallArray i ≠ 0) (fun i => .syscall (i : Nat))
      inMax copied [i]
  | .uids, b =>
    copyLoop (fun _ => true) (fun entry => .uid entry.uid) inMax copied (s.uids.uidHash.bucket b)
  | .progs, b =>
    (copyNames env.junk.names copied
      (copyLoop (fun _ => true) (fun entry => entry.name) inMax copied
        (s.progs.progHash.bucket b))).map fun name => .prog name.str

def breaksIn (s : State K) (inMax : Int) (copied : Nat) : (kind : Kind) → Fin (kind.slots K) → Bool
  | .syscalls, i =>
    loopBreaks (fun i : Fin K.nrSyscalls => s.sys.syscallArray i ≠ 0) inMax copied [i]
  | .uids, b => loopBreaks (fun _ => true) inMax copied (s.uids.uidHash.bucket b)
  | .progs, b => loopBreaks (fun _ => true) inMax copied (s.progs.progHash.bucket b)

end State

inductive ScanPc where
  | counter
  | alloc (inMax : Int)
  | visit (tempBuf : Ptr) (inMax : Int) (k : Nat)
  | done (res : Except Int Ptr)
  deriving DecidableEq

structure Scan where
  kind : Kind
  env : Env
  max : Int
  copied : List Entity
  pc : ScanPc

namespace Scan

def begin (kind : Kind) (env : Env) (max : Int) : Scan where
  kind := kind
  env := env
  max := max
  copied := []
  pc := .counter

def goto (f : Scan) (pc : ScanPc) : Scan :=
  { f with pc }

def step (s : State K) (f : Scan) : Option (State K × Scan) :=
  match f.pc with
  | .counter => some (s, f.goto (.alloc (f.kind.inMax s f.max)))
  | .alloc inMax =>
    let size := f.kind.bufferSize inMax
    match s.heap.kmalloc (f.env.kmalloc 0 size) size with
    | (none, heap) => some ({ s with heap }, f.goto (.done (.error (-ENOMEM))))
    | (some tempBuf, heap) => some ({ s with heap }, f.goto (.visit tempBuf inMax 0))
  | .visit tempBuf inMax k =>
    if h : k < f.kind.slots K then
      let found := s.visitSlot f.env inMax f.copied.length f.kind ⟨k, h⟩
      let f' := { f with copied := f.copied ++ found }
      if s.breaksIn inMax f.copied.length f.kind ⟨k, h⟩ then
        some (s, f'.goto (.done (.ok tempBuf)))
      else
        some (s, f'.goto (.visit tempBuf inMax (k + 1)))
    else
      some (s, f.goto (.done (.ok tempBuf)))
  | .done _ => none

end Scan

structure Request where
  env : Env
  euid : UInt32
  cmd : Cmd

/--
The other callers make ioctls, each of which is one step. The log keeps the states they leave.
-/
def scanning (K : Platform) : System (State K) Scan Request Unit (State K) where
  env r s :=
    let s := (throttlingIoctl r.env r.euid r.cmd s).state
    some (s, [s])
  thread _ _ s f := (f.step s).map fun (s, f) => (s, f, [])

abbrev ScanCfg (K : Platform) := Config (State K) Scan (State K)

abbrev ScanLbl := Label Request Unit

def scanBegun (s : State K) (kind : Kind) (env : Nat → Env) (max : Nat → Int) : ScanCfg K where
  shared := s
  locals i := .begin kind (env i) (max i)
  trace := [s]

end Throttling

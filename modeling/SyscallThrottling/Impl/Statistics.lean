import SyscallThrottling.Impl.System

/-!
This module contains the statistics of one system call under overlapping calls. `statistics` is any
number of calls of `check_and_set_statistic`, whose update is one step; in `records` the stores of
the update, and the loads of `get_syscall_stats`, are steps of their own.
-/

namespace Throttling

open Interleaving

variable {K : Platform}

def SyscallRegistry.statsOf (r : SyscallRegistry K) (n : Fin K.nrSyscalls) : Option SyscallStats :=
  (r.lookup n).map fun x => r.stats x.stats

/-- A call of `check_and_set_statistic`, with the uid and the name of its caller. -/
structure Invocation where
  delay : UInt64
  euid : UInt32
  comm : Comm
  deriving DecidableEq

inductive Caller (K : Platform) where
  | idle
  | running (w : Wrapper K)

/-- The caller at the label `original_system_call`. It makes the call only if its delay is not 0. -/
def Invocation.wrapper (n : Fin K.nrSyscalls) (inv : Invocation) : Wrapper K :=
  Wrapper.tail
    { Wrapper.initial { origAx := n, args := [] } inv.euid inv.comm with delay := inv.delay }

def Caller.step (n : Fin K.nrSyscalls) (i : Nat) (ch : Choice Invocation) (s : Shared K)
    : Caller K → Option (Shared K × Caller K × List Invocation)
  | .idle =>
    match ch with
    | .start inv => some (s, .running (inv.wrapper n), [])
    | _ => none
  | .running w =>
    if w.pc = .callOriginal then
      none
    else
      (w.step i ch s).map fun (s, w, _) =>
        (s, .running w, if w.pc = .callOriginal then [⟨w.delay, w.euid, w.comm⟩] else [])

def statistics (K : Platform) (n : Fin K.nrSyscalls)
    : System (Shared K) (Caller K) EnvStep (Choice Invocation) Invocation where
  env e s := (s.envStep e).map fun (s, _) => (s, [])
  thread := Caller.step n

abbrev StatCfg (K : Platform) := Config (Shared K) (Caller K) Invocation

abbrev StatLbl := Label EnvStep (Choice Invocation)

def statRegistered (env : Env) (n : Fin K.nrSyscalls) (s : State K) : StatCfg K where
  shared :=
    { st := (registerSystemCall env (n : Nat) s).2
      writeLock := none
      handler := none
      sections := [] }
  locals _ := .idle
  trace := []

structure Recorded (K : Platform) where
  st : State K
  statsLock : Option Nat

def Recorded.setStats (s : Recorded K) (p : Ptr) (stats : SyscallStats) : Recorded K :=
  { s with st := { s.st with
      sys := { s.st.sys with stats := Function.update s.st.sys.stats p stats } } }

inductive UpdatePc where
  | lookup
  | compare (p : Ptr)
  | lock (p : Ptr)
  | setDelay (p : Ptr)
  | setUid (p : Ptr)
  | setProgName (p : Ptr)
  | unlock
  | done
  deriving DecidableEq

structure Update where
  inv : Invocation
  pc : UpdatePc
  deriving DecidableEq

def Update.goto (u : Update) (pc : UpdatePc) : Update :=
  { u with pc }

/-- `check_and_set_statistic`. The log keeps the invocations whose stores are all done. -/
def Update.step (n : Fin K.nrSyscalls) (i : Nat) (s : Recorded K) (u : Update)
    : Option (Recorded K × Update × List Invocation) :=
  match u.pc with
  | .lookup =>
    match s.st.sys.lookup n with
    | some entry => some (s, u.goto (.compare entry.stats), [])
    | none => some (s, u.goto .done, [])
  | .compare p =>
    if (s.st.sys.stats p).peakDelay < u.inv.delay then
      some (s, u.goto (.lock p), [])
    else
      some (s, u.goto .done, [])
  | .lock p =>
    if s.statsLock = none then
      some ({ s with statsLock := some i }, u.goto (.setDelay p), [])
    else
      none
  | .setDelay p =>
    some (s.setStats p { s.st.sys.stats p with peakDelay := u.inv.delay }, u.goto (.setUid p), [])
  | .setUid p =>
    some (s.setStats p { s.st.sys.stats p with peakUid := u.inv.euid }, u.goto (.setProgName p), [])
  | .setProgName p =>
    let name := Comm.strscpy (s.st.sys.stats p).peakProgName u.inv.comm
    some (s.setStats p { s.st.sys.stats p with peakProgName := name }, u.goto .unlock, [u.inv])
  | .unlock => some ({ s with statsLock := none }, u.goto .done, [])
  | .done => none

inductive ReadPc where
  | alloc
  | lookup (toRet : Ptr)
  | getNr (toRet p : Ptr)
  | getDelay (toRet p : Ptr)
  | getUid (toRet p : Ptr)
  | getProgName (toRet p : Ptr)
  | done (res : Except Int Ptr)

/-- `cr` is the object the call returns, which nobody else sees. -/
structure Read where
  env : Env
  cr : SyscallCr
  pc : ReadPc

def Read.goto (f : Read) (pc : ReadPc) : Read :=
  { f with pc }

/-- `get_syscall_stats`. It does not take `stats_lock`. -/
def Read.step (n : Fin K.nrSyscalls) (s : Recorded K) (f : Read) : Option (Recorded K × Read) :=
  match f.pc with
  | .alloc =>
    match s.st.heap.kmalloc (f.env.kmalloc 0 40) 40 with
    | (none, heap) => some ({ s with st := { s.st with heap } }, f.goto (.done (.error (-ENOMEM))))
    | (some toRet, heap) =>
      some ({ s with st := { s.st with heap } },
        { f with cr := f.env.junk.syscallCr }.goto (.lookup toRet))
  | .lookup toRet =>
    match s.st.sys.lookup n with
    | none =>
      some ({ s with st := { s.st with heap := s.st.heap.kfree toRet } },
        f.goto (.done (.error (-ENOENT))))
    | some curr => some (s, f.goto (.getNr toRet curr.stats))
  | .getNr toRet p =>
    some (s, { f with cr := { f.cr with syscallNr := (s.st.sys.stats p).syscallNr } }.goto
      (.getDelay toRet p))
  | .getDelay toRet p =>
    let delay := (K.jiffiesToMsecs (s.st.sys.stats p).peakDelay).toUInt64
    some (s, { f with cr := { f.cr with peakDelay := delay } }.goto (.getUid toRet p))
  | .getUid toRet p =>
    some (s, { f with cr := { f.cr with peakUid := (s.st.sys.stats p).peakUid } }.goto
      (.getProgName toRet p))
  | .getProgName toRet p =>
    let name := Comm.strscpy f.cr.peakProgName (s.st.sys.stats p).peakProgName
    some (s, { f with cr := { f.cr with peakProgName := name } }.goto (.done (.ok toRet)))
  | .done _ => none

inductive StatTask where
  | update (inv : Invocation)
  | read (env : Env)

inductive StatThread where
  | idle
  | update (u : Update)
  | read (f : Read)

def StatTask.thread : StatTask → StatThread
  | .update inv => .update { inv, pc := .lookup }
  | .read env => .read { env, cr := env.junk.syscallCr, pc := .alloc }

def StatThread.step (n : Fin K.nrSyscalls) (i : Nat) (ch : Choice StatTask) (s : Recorded K)
    : StatThread → Option (Recorded K × StatThread × List Invocation)
  | .idle =>
    match ch with
    | .start task => some (s, task.thread, [])
    | _ => none
  | .update u => (u.step n i s).map fun (s, u, ev) => (s, .update u, ev)
  | .read f => (f.step n s).map fun (s, f) => (s, .read f, [])

def records (K : Platform) (n : Fin K.nrSyscalls)
    : System (Recorded K) StatThread Empty (Choice StatTask) Invocation where
  env e _ := e.elim
  thread := StatThread.step n

abbrev RecordCfg (K : Platform) := Config (Recorded K) StatThread Invocation

abbrev RecordLbl := Label Empty (Choice StatTask)

def recordRegistered (env : Env) (n : Fin K.nrSyscalls) (s : State K) : RecordCfg K where
  shared :=
    { st := (registerSystemCall env (n : Nat) s).2
      statsLock := none }
  locals _ := .idle
  trace := []

end Throttling

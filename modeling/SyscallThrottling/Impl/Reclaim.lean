import SyscallThrottling.Impl.Interface
import SyscallThrottling.Impl.Wrapper
import SyscallThrottling.Lib.Interleaving
import SyscallThrottling.Lib.Reclamation

/-!
This module contains the read-side critical sections of the module and the functions that unlink
nodes and free them, as an interleaved system. `synchronize_rcu` is a step that is enabled once the
sections that were open at its start have ended.
-/

namespace Throttling

open Interleaving Reclamation

variable {K : Platform}

/-- `sections` are the threads between `rcu_read_lock` and `rcu_read_unlock`. -/
structure Rcu (K : Platform) where
  st : State K
  writeLock : Option Nat
  sections : List Nat

namespace Rcu

def setState (s : Rcu K) (st : State K) : Rcu K :=
  { s with st }

def kfree (s : Rcu K) (ps : List Ptr) : Rcu K :=
  s.setState { s.st with heap := ps.foldl Heap.kfree s.st.heap }

end Rcu

inductive ReadOp (K : Platform) where
  | checkSyscall (n : Fin K.nrSyscalls)
  | checkUid (userId : UInt32)
  | checkProgname (progName : Comm)
  | getSyscallStats (n : Fin K.nrSyscalls)
  | getAllSyscalls (inMax : Int)
  | getAllUids (inMax : Int)
  | getAllProgs (inMax : Int)
  | checkAndSetStatistic (n : Fin K.nrSyscalls)
  | throttlingWrapper (n : Fin K.nrSyscalls)

/-- The chains a reader goes over. Two of them read the array of the flags only. -/
def ReadOp.chains : ReadOp K → Nat
  | .checkSyscall _ => 0
  | .getAllSyscalls _ => 0
  | .getAllUids _ => 256
  | .getAllProgs _ => 256
  | _ => 1

def walked {α : Type} (p : α → Bool) : List α → List α
  | [] => []
  | x :: xs => if p x then [x] else x :: walked p xs

/-- What a listing takes from a chain, and whether it leaves its loop there. -/
def taken {α : Type} (inMax : Int) (copied : Nat) (chain : List α) : List α × Bool :=
  let nodes := chain.take (inMax - copied).toNat
  (nodes, nodes.length < chain.length)

namespace State

def walkedSyscalls (s : State K) (n : Fin K.nrSyscalls) : List (HackedSyscall K) :=
  walked (fun entry => entry.syscallNr = n) (s.sys.hackedSyscallHash.bucket (sysBucket K n))

/-- The objects a reader finds in its `k`-th chain, and whether it leaves its loop there. -/
def found (s : State K) (copied k : Nat) : ReadOp K → List Ptr × Bool
  | .checkSyscall _ => ([], true)
  | .getAllSyscalls _ => ([], true)
  | .checkUid userId =>
    let nodes := walked (fun entry => entry.uid = userId) (s.uids.uidHash.bucket (K.hashMin userId))
    (nodes.map (·.addr), true)
  | .checkProgname progName =>
    let nodes := walked (fun entry => CString.strncmp 16 entry.name.toList progName.toList = 0)
      (s.progs.progHash.bucket (K.hashMin (hashValue K progName)))
    (nodes.map (·.addr), true)
  | .throttlingWrapper n => ((s.walkedSyscalls n).map (·.addr), true)
  | .getSyscallStats n =>
    ((s.walkedSyscalls n).map (·.addr) ++ (s.sys.lookup n).toList.map (·.stats), true)
  | .checkAndSetStatistic n =>
    ((s.walkedSyscalls n).map (·.addr) ++ (s.sys.lookup n).toList.map (·.stats), true)
  | .getAllUids inMax =>
    let chain := s.uids.uidHash.bucket ⟨k % 256, Nat.mod_lt k (by decide)⟩
    let (nodes, stop) := taken inMax copied chain
    (nodes.map (·.addr), stop)
  | .getAllProgs inMax =>
    let chain := s.progs.progHash.bucket ⟨k % 256, Nat.mod_lt k (by decide)⟩
    let (nodes, stop) := taken inMax copied chain
    (nodes.map (·.addr), stop)

end State

inductive ReaderPc where
  | lock
  | chain (k : Nat)
  | unlock
  | done
  deriving DecidableEq

/-- `held` are the objects that the reader has found, until it leaves its section. -/
structure Reader (K : Platform) where
  op : ReadOp K
  held : List Ptr
  pc : ReaderPc

def Reader.goto (r : Reader K) (pc : ReaderPc) : Reader K :=
  { r with pc }

def Reader.step (i : Nat) (s : Rcu K) (r : Reader K)
    : Option (Rcu K × Reader K × List (Reclamation.Event Ptr)) :=
  match r.pc with
  | .lock => some ({ s with sections := i :: s.sections }, r.goto (.chain 0), [])
  | .chain k =>
    if k < r.op.chains then
      let (ps, stop) := s.st.found r.held.length k r.op
      let r := { r with held := r.held ++ ps }
      some (s, r.goto (if stop then .unlock else .chain (k + 1)), ps.map (.found i))
    else
      some (s, r.goto .unlock, [])
  | .unlock => some ({ s with sections := s.sections.filter (· ≠ i) }, r.goto .done, [.left i])
  | .done => none

inductive Removal (K : Platform) where
  | syscall (sysNum : Int)
  | uid (userId : UInt32)
  | prog (progName : Comm)

/--
The critical section of `deregister_*`: the objects that are to be freed after it, or what the call
returns.
-/
def State.unlink (s : State K) : Removal K → Except Int (List Ptr × State K)
  | .syscall sysNum =>
    let safeNr := arrayIndexNospec K sysNum
    if s.sys.syscallArray safeNr = 0 then
      .error (-ENOENT)
    else
      match s.sys.lookup safeNr with
      | none => .error (-EFAULT)
      | some toRemove =>
        let sys := s.sys.setTbl safeNr toRemove.originalSyscall
        let sys := sys.setArray safeNr 0
        let sys := sys.hashDel toRemove
        let sys := sys.addLen (-1)
        .ok ([toRemove.stats, toRemove.addr], { s with sys })
  | .uid userId =>
    match s.uids.lookup K userId with
    | some curr =>
      let uids : UidRegistry :=
        { uidHash := s.uids.uidHash.del curr
          uidsLen := s.uids.uidsLen - 1 }
      .ok ([curr.addr], { s with uids })
    | none => .error (-ENOENT)
  | .prog progName =>
    match s.progs.lookup K (hashValue K progName) progName with
    | some curr =>
      let progs : ProgRegistry :=
        { progHash := s.progs.progHash.del curr
          progNameLen := s.progs.progNameLen - 1 }
      .ok ([curr.addr], { s with progs })
    | none => .error (-ENOENT)

inductive RemovalPc where
  | unlink
  | synchronize (ps : List Ptr)
  | free (ps : List Ptr) (waitFor : List Nat)
  | done (ret : Int)
  deriving DecidableEq

structure Remover (K : Platform) where
  removal : Removal K
  pc : RemovalPc

def Remover.goto (f : Remover K) (pc : RemovalPc) : Remover K :=
  { f with pc }

def Remover.step (s : Rcu K) (f : Remover K)
    : Option (Rcu K × Remover K × List (Reclamation.Event Ptr)) :=
  match f.pc with
  | .unlink =>
    if s.writeLock = none then
      match s.st.unlink f.removal with
      | .error e => some (s, f.goto (.done e), [])
      | .ok (ps, st) =>
        some (s.setState st, f.goto (.synchronize ps), ps.map (.unlinked · s.sections))
    else
      none
  | .synchronize ps => some (s, f.goto (.free ps s.sections), [])
  | .free ps waitFor =>
    if ∀ i ∈ waitFor, i ∉ s.sections then
      some (s.kfree ps, f.goto (.done 0), [])
    else
      none
  | .done _ => none

def State.unlinkFirst (s : State K) : Kind → Option (Ptr × List Ptr × State K)
  | .syscalls => s.sys.hackedSyscallHash.toList.head?.map fun entry =>
    (entry.addr, [entry.stats, entry.addr], { s with sys := s.sys.hashDel entry })
  | .uids => s.uids.uidHash.toList.head?.map fun entry =>
    (entry.addr, [entry.addr],
    { s with uids := { s.uids with uidHash := s.uids.uidHash.del entry } })
  | .progs => s.progs.progHash.toList.head?.map fun entry =>
    (entry.addr, [entry.addr],
      { s with progs := { s.progs with progHash := s.progs.progHash.del entry } })

inductive CleanupPc where
  | switchOff
  | synchronize
  | wait (waitFor : List Nat)
  | lock
  | hashDel (kind : Kind)
  | kfree (kind : Kind) (entry : Ptr)
  | unlock
  | done
  deriving DecidableEq

def CleanupPc.afterLoop : Kind → CleanupPc
  | .syscalls => .hashDel .uids
  | .uids => .hashDel .progs
  | .progs => .unlock

/-- `cleanup_rcu`. Its loops free a node right after they unlink it. -/
def CleanupPc.step (i : Nat) (s : Rcu K)
    : CleanupPc → Option (Rcu K × CleanupPc × List (Reclamation.Event Ptr))
  | .switchOff =>
    some (s.setState { s.st with mon := s.st.mon.switchOffMonitor.2 }, .synchronize, [])
  | .synchronize => some (s, .wait s.sections, [])
  | .wait waitFor =>
    if ∀ j ∈ waitFor, j ∉ s.sections then
      some (s, .lock, [])
    else
      none
  | .lock =>
    if s.writeLock = none then
      some ({ s with writeLock := some i }, .hashDel .syscalls, [])
    else
      none
  | .hashDel kind =>
    match s.st.unlinkFirst kind with
    | some (entry, ps, st) =>
      some (s.setState st, .kfree kind entry, ps.map (.unlinked · s.sections))
    | none => some (s, .afterLoop kind, [])
  | .kfree kind entry => some (s.kfree [entry], .hashDel kind, [])
  | .unlock => some ({ s with writeLock := none }, .done, [])
  | .done => none

inductive RcuTask (K : Platform) where
  | read (op : ReadOp K)
  | remove (removal : Removal K)
  | cleanup

inductive RcuThread (K : Platform) where
  | idle
  | reader (r : Reader K)
  | remover (f : Remover K)
  | cleanup (pc : CleanupPc)

def RcuThread.held : RcuThread K → List Ptr
  | .reader r => r.held
  | _ => []

inductive Registration (K : Platform) where
  | syscall (env : Env) (n : Fin K.nrSyscalls)
  | uid (env : Env) (userId : UInt32)
  | prog (env : Env) (progName : Comm)

def Registration.apply (s : State K) : Registration K → State K
  | .syscall env n => (registerSystemCall env (n : Nat) s).2
  | .uid env userId => (registerUserId env userId s).2
  | .prog env progName => (registerProgName env progName s).2

def RcuTask.thread : RcuTask K → RcuThread K
  | .read op => .reader { op, held := [], pc := .lock }
  | .remove removal => .remover { removal, pc := .unlink }
  | .cleanup => .cleanup .switchOff

def RcuThread.step (i : Nat) (ch : Choice (RcuTask K)) (s : Rcu K)
    : RcuThread K → Option (Rcu K × RcuThread K × List (Reclamation.Event Ptr))
  | .idle =>
    match ch with
    | .start task => some (s, task.thread, [])
    | _ => none
  | .reader r => (r.step i s).map fun (s, r, ev) => (s, .reader r, ev)
  | .remover f => (f.step s).map fun (s, f, ev) => (s, .remover f, ev)
  | .cleanup pc => (pc.step i s).map fun (s, pc, ev) => (s, .cleanup pc, ev)

def reclaiming (K : Platform)
    : System (Rcu K) (RcuThread K) (Registration K) (Choice (RcuTask K))
      (Reclamation.Event Ptr) where
  env r s := if s.writeLock = none then some (s.setState (r.apply s.st), []) else none
  thread := RcuThread.step

abbrev RcuCfg (K : Platform) := Config (Rcu K) (RcuThread K) (Reclamation.Event Ptr)

abbrev RcuLbl (K : Platform) := Label (Registration K) (Choice (RcuTask K))

def rcuStart (s : State K) : RcuCfg K where
  shared := { st := s, writeLock := none, sections := [] }
  locals _ := .idle
  trace := []

end Throttling

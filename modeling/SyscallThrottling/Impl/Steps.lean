import SyscallThrottling.Impl.Api.Query

/-!
This module contains the functions that run concurrently as sequences of atomic steps: the handler
of the epoch timer, the switches of the monitor and the two functions that update the syscall table.
A step is one atomic operation, one timer operation, one wake-up or one store of the source.
-/

namespace Throttling

inductive HandlerPc where
  | check
  | readMax
  | readBlocked (max : Int)
  | addSum (max : Int) (currBlocked : UInt64)
  | readPeak (max : Int) (currBlocked : UInt64)
  | setPeak (max : Int) (currBlocked : UInt64)
  | readExponential (max : Int) (currBlocked : UInt64)
  | setExponential (max : Int) (temp : UInt64)
  | setCurr (max : Int)
  | wake
  | modTimer
  deriving DecidableEq

/--
What all threads share. `handler` is the run of the timer handler that is in progress: the timer
core never runs the handler of one timer twice at a time. `sections` are the calls between
`rcu_read_lock` and `rcu_read_unlock`.
-/
structure Shared (K : Platform) where
  st : State K
  writeLock : Option Nat
  handler : Option HandlerPc
  sections : List Nat

namespace Shared

variable {K : Platform}

def setMon (s : Shared K) (m : Monitor) : Shared K :=
  { s with st := { s.st with mon := m } }

def setSys (s : Shared K) (r : SyscallRegistry K) : Shared K :=
  { s with st := { s.st with sys := r } }

def setHeap (s : Shared K) (h : Heap) : Shared K :=
  { s with st := { s.st with heap := h } }

def setHandler (s : Shared K) (h : Option HandlerPc) : Shared K :=
  { s with handler := h }

def unlock (s : Shared K) : Shared K :=
  { s with writeLock := none }

def rcuReadLock (s : Shared K) (i : Nat) : Shared K :=
  { s with sections := i :: s.sections }

def rcuReadUnlock (s : Shared K) (i : Nat) : Shared K :=
  { s with sections := s.sections.filter (· ≠ i) }

@[simp]
theorem st_rcuReadLock (s : Shared K) (i : Nat) : (s.rcuReadLock i).st = s.st := rfl

@[simp]
theorem st_rcuReadUnlock (s : Shared K) (i : Nat) : (s.rcuReadUnlock i).st = s.st := rfl

end Shared

inductive Event (K : Platform) where
  | sawMonitor (i : Nat) (on : Bool)
  | checked (i : Nat) (found : Bool)
  | token (i : Nat) (time : Nat)
  | sawOff (i : Nat)
  | executed (i : Nat) (h : Handler) (regs : PtRegs K) (ret : Int)
  | interrupted (i : Nat)
  | returned (i : Nat) (ret : Int)
  | maxRead (max : Int)
  | sampled (blocked : Int)
  | refill (value : Int) (time : Nat)
  deriving DecidableEq

section

variable {K : Platform}

def HandlerPc.step (s : Shared K) : HandlerPc → Shared K × List (Event K)
  | .check =>
    if s.st.mon.isMonitorActive = 0 then
      (s.setHandler none, [])
    else
      (s.setHandler (some .readMax), [])
  | .readMax =>
    let max := s.st.mon.maxSyscallsPerSec
    (s.setHandler (some (.readBlocked max)), [.maxRead max])
  | .readBlocked max =>
    (s.setHandler (some (.addSum max s.st.mon.blockedUlong)), [.sampled s.st.mon.blockedThread])
  | .addSum max currBlocked =>
    ((s.setMon (s.st.mon.addSumBlocked currBlocked)).setHandler (some (.readPeak max currBlocked)),
      [])
  | .readPeak max currBlocked =>
    if s.st.mon.peakExceeded currBlocked then
      (s.setHandler (some (.setPeak max currBlocked)), [])
    else
      (s.setHandler (some (.readExponential max currBlocked)), [])
  | .setPeak max currBlocked =>
    ((s.setMon (s.st.mon.setPeakBlocked currBlocked)).setHandler
      (some (.readExponential max currBlocked)), [])
  | .readExponential max currBlocked =>
    (s.setHandler (some (.setExponential max
      (Monitor.nextExponential s.st.mon.exponential currBlocked))), [])
  | .setExponential max temp =>
    ((s.setMon { s.st.mon with exponential := temp }).setHandler (some (.setCurr max)), [])
  | .setCurr max =>
    ((s.setMon { s.st.mon with currSyscalls := max }).setHandler (some .wake),
      [.refill max s.st.mon.jiffies])
  | .wake => ((s.setMon s.st.mon.wakeUp).setHandler (some .modTimer), [])
  | .modTimer => ((s.setMon (s.st.mon.modTimer (s.st.mon.jiffies + K.HZ))).setHandler none, [])

inductive SwitchOnPc where
  | cmpxchg
  | startTime
  | timerSetup
  | modTimer
  | done (ret : Int)
  deriving DecidableEq

def SwitchOnPc.step (s : Shared K) : SwitchOnPc → Option (Shared K × SwitchOnPc)
  | .cmpxchg =>
    if s.st.mon.isMonitorActive = 0 then
      some (s.setMon { s.st.mon with isMonitorActive := 1 }, .startTime)
    else
      some (s, .done (-EALREADY))
  | .startTime =>
    some (s.setMon { s.st.mon with
      infoThreads := { s.st.mon.infoThreads with startTime := s.st.mon.jiffiesUlong } }, .timerSetup)
  | .timerSetup => some (s.setMon s.st.mon.timerSetup, .modTimer)
  | .modTimer => some (s.setMon (s.st.mon.modTimer (s.st.mon.jiffies + K.HZ)), .done 0)
  | .done _ => none

inductive SwitchOffPc where
  | cmpxchg
  | wake
  | readStart
  | setElapsed (temp : UInt64)
  | timerDelete
  | done (ret : Int)
  deriving DecidableEq

def SwitchOffPc.step (s : Shared K) : SwitchOffPc → Option (Shared K × SwitchOffPc)
  | .cmpxchg =>
    if s.st.mon.isMonitorActive = 1 then
      some (s.setMon { s.st.mon with isMonitorActive := 0 }, .wake)
    else
      some (s, .done (-EALREADY))
  | .wake => some (s.setMon s.st.mon.wakeUp, .readStart)
  | .readStart =>
    some (s, .setElapsed (s.st.mon.jiffiesUlong - s.st.mon.infoThreads.startTime))
  | .setElapsed temp => some (s.setMon (s.st.mon.setElapsed temp), .timerDelete)
  | .timerDelete =>
    -- `timer_delete_sync` waits for a handler that is running
    if s.handler = none then
      some (s.setMon s.st.mon.timerDeleteSync, .done 0)
    else
      none
  | .done _ => none

inductive RegisterPc (K : Platform) where
  | alloc
  | lock (stats newHack : Ptr)
  | check (stats newHack : Ptr)
  | present (stats newHack : Ptr)
  | save (stats newHack : Ptr)
  | table (node : HackedSyscall K)
  | flag (node : HackedSyscall K)
  | hash (node : HackedSyscall K)
  | count
  | unlock
  | done (ret : Int)
  deriving DecidableEq

structure Register (K : Platform) where
  env : Env
  safeNr : Fin K.nrSyscalls
  pc : RegisterPc K

def Register.goto (f : Register K) (pc : RegisterPc K) : Register K :=
  { f with pc }

def Register.step (i : Nat) (s : Shared K) (f : Register K) : Option (Shared K × Register K) :=
  match f.pc with
  | .alloc =>
    match s.st.heap.kmalloc (f.env.kmalloc 0 40) 40 with
    | (none, heap) => some (s.setHeap heap, f.goto (.done (-ENOMEM)))
    | (some stats, heap) =>
      match heap.kmalloc (f.env.kmalloc 1 40) 40 with
      | (none, heap) => some (s.setHeap (heap.kfree stats), f.goto (.done (-ENOMEM)))
      | (some newHack, heap) => some (s.setHeap heap, f.goto (.lock stats newHack))
  | .lock stats newHack =>
    if s.writeLock = none then
      some ({ s with writeLock := some i }, f.goto (.check stats newHack))
    else
      none
  | .check stats newHack =>
    if s.st.sys.syscallArray f.safeNr ≠ 0 then
      some (s, f.goto (.present stats newHack))
    else
      some (s, f.goto (.save stats newHack))
  | .present stats newHack =>
    some (s.unlock.setHeap ((s.st.heap.kfree stats).kfree newHack), f.goto (.done (-EEXIST)))
  | .save stats newHack =>
    some (s, f.goto (.table
      { addr := newHack
        syscallNr := f.safeNr
        originalSyscall := s.st.sys.hackedSyscallTbl f.safeNr
        stats := stats }))
  | .table node =>
    some (s.setSys (s.st.sys.setTbl f.safeNr .throttlingWrapper), f.goto (.flag node))
  | .flag node => some (s.setSys (s.st.sys.setArray f.safeNr 1), f.goto (.hash node))
  | .hash node =>
    some (s.setSys (s.st.sys.hashAdd node (freshStats f.env.junk.stats f.safeNr)), f.goto .count)
  | .count => some (s.setSys (s.st.sys.addLen 1), f.goto .unlock)
  | .unlock => some (s.unlock, f.goto (.done 0))
  | .done _ => none

inductive DeregisterPc (K : Platform) where
  | lock
  | check
  | find
  | fail (ret : Int)
  | table (toRemove : HackedSyscall K)
  | flag (toRemove : HackedSyscall K)
  | hash (toRemove : HackedSyscall K)
  | count (toRemove : HackedSyscall K)
  | unlock (toRemove : HackedSyscall K)
  | synchronize (toRemove : HackedSyscall K)
  | free (toRemove : HackedSyscall K) (waitFor : List Nat)
  | done (ret : Int)
  deriving DecidableEq

structure Deregister (K : Platform) where
  safeNr : Fin K.nrSyscalls
  pc : DeregisterPc K

def Deregister.goto (f : Deregister K) (pc : DeregisterPc K) : Deregister K :=
  { f with pc }

def Deregister.step (i : Nat) (s : Shared K) (f : Deregister K)
    : Option (Shared K × Deregister K) :=
  match f.pc with
  | .lock =>
    if s.writeLock = none then
      some ({ s with writeLock := some i }, f.goto .check)
    else
      none
  | .check =>
    if s.st.sys.syscallArray f.safeNr = 0 then
      some (s, f.goto (.fail (-ENOENT)))
    else
      some (s, f.goto .find)
  | .find =>
    match s.st.sys.lookup f.safeNr with
    | none => some (s, f.goto (.fail (-EFAULT)))
    | some toRemove => some (s, f.goto (.table toRemove))
  | .fail ret => some (s.unlock, f.goto (.done ret))
  | .table toRemove =>
    some (s.setSys (s.st.sys.setTbl f.safeNr toRemove.originalSyscall), f.goto (.flag toRemove))
  | .flag toRemove => some (s.setSys (s.st.sys.setArray f.safeNr 0), f.goto (.hash toRemove))
  | .hash toRemove => some (s.setSys (s.st.sys.hashDel toRemove), f.goto (.count toRemove))
  | .count toRemove => some (s.setSys (s.st.sys.addLen (-1)), f.goto (.unlock toRemove))
  | .unlock toRemove => some (s.unlock, f.goto (.synchronize toRemove))
  | .synchronize toRemove => some (s, f.goto (.free toRemove s.sections))
  | .free toRemove waitFor =>
    -- `synchronize_rcu` waits for the sections that were open at its start
    if ∀ j ∈ waitFor, j ∉ s.sections then
      some (s.setHeap ((s.st.heap.kfree toRemove.stats).kfree toRemove.addr), f.goto (.done 0))
    else
      none
  | .done _ => none

end

end Throttling

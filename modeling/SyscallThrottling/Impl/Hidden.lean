import SyscallThrottling.Impl.Rcu

/-!
This module contains the functions of `throttling_hidden.c`, which run the epoch timer.
-/

namespace Throttling

variable (K : Platform)

namespace Monitor

def timerSetup (m : Monitor) : Monitor :=
  -- the structure is initialised again: a timer that is armed stays on the queue of the kernel
  m

def modTimer (m : Monitor) (expires : Nat) : Monitor :=
  { m with epochTimer := some expires }

def timerDeleteSync (m : Monitor) : Monitor :=
  { m with epochTimer := none }

def wakeUp (m : Monitor) : Monitor :=
  -- `wake_up_interruptible` wakes every waiter, since none is exclusive
  { m with throttWq := [] }

def jiffiesUlong (m : Monitor) : UInt64 :=
  UInt64.ofNat m.jiffies

def coreSetup (m : Monitor) : Int × Monitor :=
  let m := { m with infoThreads := { m.infoThreads with startTime := m.jiffiesUlong } }
  let m := m.timerSetup
  (0, m.modTimer (m.jiffies + K.HZ))

def coreCleanup (m : Monitor) : Monitor :=
  m.timerDeleteSync

def blockedUlong (m : Monitor) : UInt64 :=
  UInt64.ofInt m.blockedThread

def addSumBlocked (m : Monitor) (currBlocked : UInt64) : Monitor :=
  { m with infoThreads :=
      { m.infoThreads with sumBlocked := m.infoThreads.sumBlocked + currBlocked } }

def peakExceeded (m : Monitor) (currBlocked : UInt64) : Bool :=
  -- the peak, an `int`, is converted for the comparison
  UInt64.ofInt m.infoThreads.peakBlocked < currBlocked

def setPeakBlocked (m : Monitor) (currBlocked : UInt64) : Monitor :=
  { m with infoThreads := { m.infoThreads with peakBlocked := toInt currBlocked.toNat } }

def nextExponential (temp currBlocked : UInt64) : UInt64 :=
  -- the mean is scaled by 1024, and 0 stands for one that has no sample yet
  let currBlocked := currBlocked <<< 10
  if temp = 0 then
    currBlocked
  else
    temp - (temp >>> 2) + (currBlocked >>> 2)

def epochHandler (m : Monitor) : Monitor :=
  if m.isMonitorActive = 0 then
    m
  else
    let max := m.maxSyscallsPerSec
    let currBlocked := m.blockedUlong
    let m := m.addSumBlocked currBlocked
    let m := if m.peakExceeded currBlocked then m.setPeakBlocked currBlocked else m
    let m := { m with exponential := nextExponential m.exponential currBlocked }
    let m := { m with currSyscalls := max }
    let m := m.wakeUp
    m.modTimer (m.jiffies + K.HZ)

def runTimer (m : Monitor) : Monitor :=
  match m.epochTimer with
  | some expires =>
    if expires ≤ m.jiffies then
      epochHandler K { m with epochTimer := none }
    else
      m
  | none => m

end Monitor

end Throttling

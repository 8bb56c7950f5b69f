import SyscallThrottling.Impl.Hidden

/-!
This module contains the functions of `throttling_api.c` that switch the monitor and set its limit.
-/

namespace Throttling

variable (K : Platform)

namespace Monitor

def switchOnMonitor (m : Monitor) : Int × Monitor :=
  if m.isMonitorActive = 0 then
    let m := { m with isMonitorActive := 1 }
    let (_, m) := m.coreSetup K
    (0, m)
  else
    (-EALREADY, m)

def setElapsed (m : Monitor) (temp : UInt64) : Monitor :=
  { m with infoThreads := { m.infoThreads with elapsed := temp } }

def switchOffMonitor (m : Monitor) : Int × Monitor :=
  if m.isMonitorActive = 1 then
    let m := { m with isMonitorActive := 0 }
    let m := m.wakeUp
    let temp := m.jiffiesUlong - m.infoThreads.startTime
    let m := m.setElapsed temp
    (0, m.coreCleanup)
  else
    (-EALREADY, m)

def setMaxSyscall (m : Monitor) (newMax : Int) : Int × Monitor :=
  if newMax ≤ 0 then
    (-EINVAL, m)
  else
    (0, { m with maxSyscallsPerSec := newMax })

def elapsedJiffies (m : Monitor) : UInt64 :=
  let temp := m.infoThreads.elapsed
  if m.isMonitorActive ≠ 0 then
    temp + (m.jiffiesUlong - m.infoThreads.startTime)
  else
    temp

end Monitor

end Throttling

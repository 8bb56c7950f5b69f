import SyscallThrottling.Impl.Kernel

/-!
This module contains the data structures of `throttling_rcu.h` and `throttling.h` and the global
variables of `throttling_mod.c`. Structures that are allocated or copied as a whole keep their
padding.
-/

namespace Throttling

structure SyscallStats where
  syscallNr : Int
  pad0 : UInt32
  peakDelay : UInt64
  peakProgName : Comm
  peakUid : UInt32
  pad1 : UInt32
  deriving DecidableEq

def SyscallStats.zero : SyscallStats where
  syscallNr := 0
  pad0 := 0
  peakDelay := 0
  peakProgName := Vector.replicate 16 0
  peakUid := 0
  pad1 := 0

structure HackedSyscall (K : Platform) where
  addr : Ptr
  syscallNr : Fin K.nrSyscalls
  originalSyscall : Handler
  stats : Ptr
  deriving DecidableEq

structure RegisteredUid where
  addr : Ptr
  uid : UInt32
  deriving DecidableEq

structure RegisteredProg where
  addr : Ptr
  name : Comm
  deriving DecidableEq

structure ThreadStats where
  sumBlocked : UInt64
  elapsed : UInt64
  startTime : UInt64
  peakBlocked : Int
  deriving DecidableEq

structure ThreadStatsCr where
  type : Int
  pad0 : UInt32
  mean : UInt64
  sumBlocked : UInt64
  elapsed : UInt64
  peakBlocked : Int
  pad1 : UInt32
  deriving DecidableEq

structure SyscallCr where
  syscallNr : Int
  pad0 : UInt32
  peakDelay : UInt64
  peakProgName : Comm
  peakUid : UInt32
  pad1 : UInt32
  deriving DecidableEq

structure CheckSyscallCr where
  syscallNr : Int
  check : Int
  deriving DecidableEq

structure CheckUidCr where
  uid : UInt32
  check : Int
  deriving DecidableEq

structure CheckPrognameCr where
  name : Comm
  check : Int
  deriving DecidableEq

structure FetchAll where
  list : UInt64
  max : UInt32
  copied : UInt32
  deriving DecidableEq

/-- `stats` is the memory behind the `stats` pointers of the nodes. -/
structure SyscallRegistry (K : Platform) where
  syscallArray : Fin K.nrSyscalls → Int
  hackedSyscallTbl : Fin K.nrSyscalls → Handler
  hackedSyscallHash : HashTable 256 (HackedSyscall K)
  sysLen : Int
  stats : Ptr → SyscallStats

structure UidRegistry where
  uidHash : HashTable 256 RegisteredUid
  uidsLen : Int

structure ProgRegistry where
  progHash : HashTable 256 RegisteredProg
  progNameLen : Int

/--
The switch, the tokens and the statistics on blocked threads. `jiffies` is the clock of the kernel,
`epochTimer` the time the timer is armed for, and `throttWq` the threads that wait to be woken.
-/
structure Monitor where
  isMonitorActive : Int
  maxSyscallsPerSec : Int
  currSyscalls : Int
  blockedThread : Int
  exponential : UInt64
  infoThreads : ThreadStats
  epochTimer : Option Nat
  throttWq : List Nat
  jiffies : Nat

structure State (K : Platform) where
  sys : SyscallRegistry K
  uids : UidRegistry
  progs : ProgRegistry
  mon : Monitor
  heap : Heap

def State.initial (K : Platform) (T : Fin K.nrSyscalls → Handler) (stats : Ptr → SyscallStats)
    (now : Nat) : State K where
  sys :=
    { syscallArray := fun _ => 0
      hackedSyscallTbl := T
      hackedSyscallHash := .empty
      sysLen := 0
      stats := stats }
  uids := { uidHash := .empty, uidsLen := 0 }
  progs := { progHash := .empty, progNameLen := 0 }
  mon :=
    { isMonitorActive := 1
      maxSyscallsPerSec := 3
      currSyscalls := 3
      blockedThread := 0
      exponential := 0
      infoThreads := { sumBlocked := 0, elapsed := 0, startTime := 0, peakBlocked := 0 }
      epochTimer := none
      throttWq := []
      jiffies := now }
  heap := { brk := 1, live := [] }

structure Junk where
  stats : SyscallStats
  threadStatsCr : ThreadStatsCr
  syscallCr : SyscallCr
  names : Nat → Comm

/--
How the kernel answers the requests of one call: the copy from user space, and, by their order and
their size, the copies to user space with the bytes they can store, and the allocations.
-/
structure Env where
  copyFromUser : Bool
  copyToUser : Nat → Nat → Nat
  kmalloc : Nat → Nat → Bool
  junk : Junk

/-- The bytes that the `k`-th copy to user space stores. It may stop anywhere in its source. -/
def Env.copied (env : Env) (k size : Nat) : Nat :=
  -- user space has no range of half the address space
  if size < 2 ^ 63 then min size (env.copyToUser k size) else 0

def Env.sample : Env where
  copyFromUser := true
  copyToUser _ size := size
  kmalloc _ _ := true
  junk :=
    { stats := .zero
      threadStatsCr :=
        { type := 0, pad0 := 0, mean := 0, sumBlocked := 0, elapsed := 0, peakBlocked := 0, pad1 := 0 }
      syscallCr :=
        { syscallNr := 0
          pad0 := 0
          peakDelay := 0
          peakProgName := Vector.replicate 16 0
          peakUid := 0
          pad1 := 0 }
      names := fun _ => Vector.replicate 16 0 }

end Throttling

import SyscallThrottling.Impl.Api.Monitor
import SyscallThrottling.Impl.Api.Registry

/-!
This module contains the functions of `throttling_api.c` that report statistics and list what is
registered, and the cleanup of the registries.
-/

namespace Throttling

variable {K : Platform}

def getThreadStats (env : Env) (type : Int) (s : State K)
    : Except Int (Ptr × ThreadStatsCr) × State K :=
  match s.heap.kmalloc (env.kmalloc 0 40) 40 with
  | (none, heap) => (.error (-ENOMEM), { s with heap })
  | (some toRet, heap) =>
    if type = 1 then
      let cr :=
        { env.junk.threadStatsCr with
          elapsed := 0
          sumBlocked := 0
          peakBlocked := 0
          type := 1
          mean := s.mon.exponential }
      (.ok (toRet, cr), { s with heap })
    else
      let cr :=
        { env.junk.threadStatsCr with
          sumBlocked := s.mon.infoThreads.sumBlocked
          elapsed := (K.jiffiesToMsecs s.mon.elapsedJiffies).toUInt64
          peakBlocked := s.mon.infoThreads.peakBlocked
          type := 0
          mean := 0 }
      (.ok (toRet, cr), { s with heap })

def getSyscallStats (env : Env) (sysNum : Int) (s : State K)
    : Except Int (Ptr × SyscallCr) × State K :=
  match s.heap.kmalloc (env.kmalloc 0 40) 40 with
  | (none, heap) => (.error (-ENOMEM), { s with heap })
  | (some toRet, heap) =>
    let safeNr := arrayIndexNospec K sysNum
    match s.sys.lookup safeNr with
    | none => (.error (-ENOENT), { s with heap := heap.kfree toRet })
    | some curr =>
      let stats := s.sys.stats curr.stats
      let cr :=
        { env.junk.syscallCr with
          syscallNr := stats.syscallNr
          peakDelay := (K.jiffiesToMsecs stats.peakDelay).toUInt64
          peakUid := stats.peakUid
          peakProgName := Comm.strscpy env.junk.syscallCr.peakProgName stats.peakProgName }
      (.ok (toRet, cr), { s with heap })

def getLenght (choose : Int) (s : State K) : Int :=
  if choose = 0 then
    toInt s.uids.uidsLen
  else if choose = 1 then
    s.sys.sysLen
  else
    toInt s.progs.progNameLen

/--
The loop that the three listings share: what satisfies `p` is copied until `inMax` elements are.
A `break` leaves `hash_for_each` as a whole, since its outer loop ends once a node was found.
-/
def copyLoop {α β : Type} (p : α → Bool) (f : α → β) (inMax : Int) : Nat → List α → List β
  | _, [] => []
  | copied, x :: xs =>
    if inMax ≤ copied then
      []
    else if p x then
      f x :: copyLoop p f inMax (copied + 1) xs
    else
      copyLoop p f inMax copied xs

def getAllSyscalls (env : Env) (inMax : Int) (s : State K)
    : Except Int (Ptr × List Int) × State K :=
  let inMax := min s.sys.sysLen inMax
  let size := toSize (inMax * 4)
  match s.heap.kmalloc (env.kmalloc 0 size) size with
  | (none, heap) => (.error (-ENOMEM), { s with heap })
  | (some tempBuf, heap) =>
    let copied := copyLoop (fun i => s.sys.syscallArray i ≠ 0) (fun i => ((i : Nat) : Int)) inMax 0
      (List.finRange K.nrSyscalls)
    (.ok (tempBuf, copied), { s with heap })

def getAllUids (env : Env) (inMax : Int) (s : State K)
    : Except Int (Ptr × List UInt32) × State K :=
  let inMax := toInt (min s.uids.uidsLen inMax)
  let size := toSize (inMax * 4)
  match s.heap.kmalloc (env.kmalloc 0 size) size with
  | (none, heap) => (.error (-ENOMEM), { s with heap })
  | (some tempBuf, heap) =>
    let copied := copyLoop (fun _ => true) (fun entry => entry.uid) inMax 0 s.uids.uidHash.toList
    (.ok (tempBuf, copied), { s with heap })

def copyNames (names : Nat → Comm) : Nat → List Comm → List Comm
  | _, [] => []
  | i, name :: rest => Comm.strscpy (names i) name :: copyNames names (i + 1) rest

def getAllProgs (env : Env) (inMax : Int) (s : State K)
    : Except Int (Ptr × List Comm) × State K :=
  let inMax := toInt (min s.progs.progNameLen inMax)
  -- `kmalloc_array` multiplies with a check for overflow
  let size := toSize inMax * 16
  match s.heap.kmalloc (env.kmalloc 0 size) size with
  | (none, heap) => (.error (-ENOMEM), { s with heap })
  | (some tempBuf, heap) =>
    let copied := copyLoop (fun _ => true) (fun entry => entry.name) inMax 0 s.progs.progHash.toList
    (.ok (tempBuf, copyNames env.junk.names 0 copied), { s with heap })

def cleanupRcu (s : State K) : Int × State K :=
  let (_, mon) := s.mon.switchOffMonitor
  -- the statistics of the system calls are not freed
  let addrs := s.sys.hackedSyscallHash.toList.map (·.addr)
    ++ s.uids.uidHash.toList.map (·.addr)
    ++ s.progs.progHash.toList.map (·.addr)
  (0, { s with
    mon
    sys := { s.sys with hackedSyscallHash := .empty }
    uids := { s.uids with uidHash := .empty }
    progs := { s.progs with progHash := .empty }
    heap := addrs.foldl Heap.kfree s.heap })

end Throttling

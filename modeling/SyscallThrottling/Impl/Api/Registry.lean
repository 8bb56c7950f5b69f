import SyscallThrottling.Impl.Rcu

/-!
This module contains the functions of `throttling_api.c` that register and deregister system calls,
user ids and program names, and the lookups the other functions make.
-/

namespace Throttling

variable {K : Platform}

def sysBucket (K : Platform) (n : Fin K.nrSyscalls) : Fin 256 :=
  K.hashMin (UInt32.ofNat n)

namespace SyscallRegistry

def lookup (r : SyscallRegistry K) (n : Fin K.nrSyscalls) : Option (HackedSyscall K) :=
  r.hackedSyscallHash.find? (sysBucket K n) (fun entry => entry.syscallNr = n)

def setTbl (r : SyscallRegistry K) (n : Fin K.nrSyscalls) (h : Handler) : SyscallRegistry K :=
  { r with hackedSyscallTbl := Function.update r.hackedSyscallTbl n h }

def setArray (r : SyscallRegistry K) (n : Fin K.nrSyscalls) (v : Int) : SyscallRegistry K :=
  { r with syscallArray := Function.update r.syscallArray n v }

def hashAdd (r : SyscallRegistry K) (node : HackedSyscall K) (stats : SyscallStats)
    : SyscallRegistry K :=
  { r with
    hackedSyscallHash := r.hackedSyscallHash.add (sysBucket K node.syscallNr) node
    stats := Function.update r.stats node.stats stats }

def hashDel (r : SyscallRegistry K) (node : HackedSyscall K) : SyscallRegistry K :=
  { r with hackedSyscallHash := r.hackedSyscallHash.del node }

def addLen (r : SyscallRegistry K) (d : Int) : SyscallRegistry K :=
  { r with sysLen := r.sysLen + d }

end SyscallRegistry

/-- The statistics of a fresh node. `peak_prog_name` is left as the allocator returned it. -/
def freshStats (junk : SyscallStats) (n : Fin K.nrSyscalls) : SyscallStats :=
  { junk with syscallNr := (n : Nat), peakDelay := 0, peakUid := 0 }

def registerSystemCall (env : Env) (sysNum : Int) (s : State K) : Int × State K :=
  match s.heap.kmalloc (env.kmalloc 0 40) 40 with
  | (none, heap) => (-ENOMEM, { s with heap })
  | (some stats, heap) =>
    match heap.kmalloc (env.kmalloc 1 40) 40 with
    | (none, heap) => (-ENOMEM, { s with heap := heap.kfree stats })
    | (some newHack, heap) =>
      let safeNr := arrayIndexNospec K sysNum
      if s.sys.syscallArray safeNr ≠ 0 then
        (-EEXIST, { s with heap := (heap.kfree stats).kfree newHack })
      else
        let node : HackedSyscall K :=
          { addr := newHack
            syscallNr := safeNr
            originalSyscall := s.sys.hackedSyscallTbl safeNr
            stats := stats }
        let sys := s.sys.setTbl safeNr .throttlingWrapper
        let sys := sys.setArray safeNr 1
        let sys := sys.hashAdd node (freshStats env.junk.stats safeNr)
        let sys := sys.addLen 1
        (0, { s with sys, heap })

def deregisterSystemCall (sysNum : Int) (s : State K) : Int × State K :=
  let safeNr := arrayIndexNospec K sysNum
  if s.sys.syscallArray safeNr = 0 then
    (-ENOENT, s)
  else
    match s.sys.lookup safeNr with
    | none => (-EFAULT, s)
    | some toRemove =>
      let sys := s.sys.setTbl safeNr toRemove.originalSyscall
      let sys := sys.setArray safeNr 0
      let sys := sys.hashDel toRemove
      let sys := sys.addLen (-1)
      (0, { s with sys, heap := (s.heap.kfree toRemove.stats).kfree toRemove.addr })

def UidRegistry.lookup (K : Platform) (r : UidRegistry) (uid : UInt32) : Option RegisteredUid :=
  r.uidHash.find? (K.hashMin uid) (fun curr => curr.uid = uid)

def registerUserId (env : Env) (userId : UInt32) (s : State K) : Int × State K :=
  match s.heap.kmalloc (env.kmalloc 0 24) 24 with
  | (none, heap) => (-ENOMEM, { s with heap })
  | (some newUid, heap) =>
    match s.uids.lookup K userId with
    | some _ => (-EEXIST, { s with heap := heap.kfree newUid })
    | none =>
      let node : RegisteredUid := { addr := newUid, uid := userId }
      let uids : UidRegistry :=
        { uidHash := s.uids.uidHash.add (K.hashMin node.uid) node
          uidsLen := s.uids.uidsLen + 1 }
      (0, { s with uids, heap })

def deregisterUserId (userId : UInt32) (s : State K) : Int × State K :=
  match s.uids.lookup K userId with
  | some curr =>
    let uids : UidRegistry :=
      { uidHash := s.uids.uidHash.del curr
        uidsLen := s.uids.uidsLen - 1 }
    (0, { s with uids, heap := s.heap.kfree curr.addr })
  | none => (-ENOENT, s)

def hashValue (K : Platform) (name : Comm) : UInt32 :=
  K.jhash (name.toList.take (CString.strnlen name.toList 16))

def ProgRegistry.lookup (K : Platform) (r : ProgRegistry) (hash : UInt32) (name : Comm)
    : Option RegisteredProg :=
  r.progHash.find? (K.hashMin hash)
    (fun curr => CString.strncmp 16 curr.name.toList name.toList = 0)

def registerProgName (env : Env) (progName : Comm) (s : State K) : Int × State K :=
  match s.heap.kmalloc (env.kmalloc 0 32) 32 with
  | (none, heap) => (-ENOMEM, { s with heap })
  | (some newProg, heap) =>
    let node : RegisteredProg := { addr := newProg, name := Comm.strncpy progName }
    -- the only function that hashes the stored copy and not the name it was given
    let hash := hashValue K node.name
    match s.progs.lookup K hash progName with
    | some _ => (-EEXIST, { s with heap := heap.kfree newProg })
    | none =>
      let progs : ProgRegistry :=
        { progHash := s.progs.progHash.add (K.hashMin hash) node
          progNameLen := s.progs.progNameLen + 1 }
      (0, { s with progs, heap })

def deregisterProgName (progName : Comm) (s : State K) : Int × State K :=
  match s.progs.lookup K (hashValue K progName) progName with
  | some curr =>
    let progs : ProgRegistry :=
      { progHash := s.progs.progHash.del curr
        progNameLen := s.progs.progNameLen - 1 }
    (0, { s with progs, heap := s.heap.kfree curr.addr })
  | none => (-ENOENT, s)

def checkSyscall (sysNum : Int) (r : SyscallRegistry K) : Int :=
  if r.syscallArray (arrayIndexNospec K sysNum) ≠ 0 then 1 else 0

def checkUid (K : Platform) (userId : UInt32) (r : UidRegistry) : Int :=
  match r.lookup K userId with
  | some _ => 1
  | none => 0

def checkProgname (K : Platform) (progName : Comm) (r : ProgRegistry) : Int :=
  match r.lookup K (hashValue K progName) progName with
  | some _ => 1
  | none => 0

end Throttling

import Mathlib.Algebra.Order.Field.Rat
import SyscallThrottling.Impl.Dev

/-!
This module contains what `user/interface.c` shows of its commands: the listings, which ask for a
number first and then for as many elements, and the statistics of the blocked threads.
-/

namespace Throttling

variable {K : Platform}

inductive Kind where
  | syscalls
  | uids
  | progs
  deriving DecidableEq

inductive Entity where
  | syscall (n : Int)
  | uid (uid : UInt32)
  | prog (name : List UInt8)
  deriving DecidableEq

namespace Kind

def selector : Kind → Int
  | .syscalls => 0
  | .uids => 1
  | .progs => 2

def fetch (arg : FetchAll) : Kind → Cmd
  | .syscalls => .getAllSyscalls arg
  | .uids => .getAllUids arg
  | .progs => .getAllProgs arg

end Kind

def UserWrite.elementSize : UserWrite → Nat
  | .progs _ => 16
  | _ => 4

/-- The elements that user space finds in its list: those that were copied as a whole. -/
def UserWrite.entities : UserWrite → List Entity
  | .syscalls list => list.map .syscall
  | .uids list => list.map .uid
  | .progs list => list.map fun name => .prog name.str
  | .torn w n => w.entities.take (n / w.elementSize)
  | _ => []

def readNumber (intVal : Int) : List UserWrite → Int
  | [.number n] => n
  | _ => intVal

inductive Listing where
  | error
  | none
  | shown (copied : UInt32) (list : List Entity)
  deriving DecidableEq

def readListing (f : FetchAll) : List UserWrite → Listing
  | [w, .fetchAll f] => .shown f.copied (w.entities.take f.copied.toNat)
  | _ => .shown f.copied []

/--
The menu entries 16, 17 and 18. `env` are the answers of the kernel to the two commands, and
`malloc` is the array, or 0.
-/
def listing (env : Env × Env) (euid : UInt32) (malloc : UInt64) (kind : Kind) (s : State K)
    : Listing :=
  let r := throttlingIoctl env.1 euid (.getNumber kind.selector) s
  if r.ret < 0 then
    .error
  else
    let count := readNumber kind.selector r.out
    if count = 0 then
      .none
    else if malloc = 0 then
      .error
    else
      let f : FetchAll := { list := malloc, max := UInt32.ofInt count, copied := 0 }
      let r := throttlingIoctl env.2 euid (kind.fetch f) r.state
      if r.ret < 0 then
        .error
      else
        readListing f r.out

/-- A quotient of two `double`, taken as exact. It is no number when `b` is 0. -/
def quotient (a b : UInt64) : Option ℚ :=
  if b = 0 then
    none
  else
    some (a.toNat / b.toNat)

inductive StatsShown where
  | error
  | arithmetic (sumBlocked : UInt64) (mean : Option ℚ) (peakBlocked : Int)
  | exponential (mean : Option ℚ)
  | none

def readThreadStats (tStats : ThreadStatsCr) : List UserWrite → ThreadStatsCr
  | [.threadStats cr] => cr
  | _ => tStats

/-- The menu entry 10. -/
def threadStats (env : Env) (euid : UInt32) (intVal : Int) (s : State K) : StatsShown :=
  let tStats : ThreadStatsCr :=
    { type := intVal, pad0 := 0, mean := 0, sumBlocked := 0, elapsed := 0, peakBlocked := 0,
      pad1 := 0 }
  let r := throttlingIoctl env euid (.getThreadStats tStats) s
  if r.ret < 0 then
    .error
  else
    let tStats := readThreadStats tStats r.out
    if tStats.type = 0 then
      .arithmetic tStats.sumBlocked (quotient tStats.sumBlocked tStats.elapsed) tStats.peakBlocked
    else if tStats.type = 1 then
      .exponential (quotient tStats.mean 1024)
    else
      .none

end Throttling

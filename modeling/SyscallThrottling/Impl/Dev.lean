import SyscallThrottling.Impl.Api.Query
import SyscallThrottling.Lib.Word

/-!
This module contains the functions of `throttling_dev.c`: the ioctl handler of the device and the
registration of the device itself.
-/

namespace Throttling

variable {K : Platform}

/--
The commands of `throttling.h` with what user space holds at the argument, and every other number.
A string argument is given by its bytes from the pointer on; a zero byte follows them.
-/
inductive Cmd where
  | getThreadStats (arg : ThreadStatsCr)
  | getSyscallStats (arg : SyscallCr)
  | checkSyscall (arg : CheckSyscallCr)
  | checkUid (arg : CheckUidCr)
  | checkProg (arg : CheckPrognameCr)
  | getNumber (arg : Int)
  | getAllSyscalls (arg : FetchAll)
  | getAllUids (arg : FetchAll)
  | getAllProgs (arg : FetchAll)
  | registerSyscall (arg : Int)
  | registerUid (arg : UInt32)
  | registerProg (arg : List UInt8)
  | deregisterSyscall (arg : Int)
  | deregisterUid (arg : UInt32)
  | deregisterProg (arg : List UInt8)
  | setMaxCalls (arg : Int)
  | monitorOn
  | monitorOff
  | unknown (cmd : UInt32)

/-- What is copied to user space. A copy is `torn` if it ends after the first `n` bytes of `w`. -/
inductive UserWrite where
  | threadStats (arg : ThreadStatsCr)
  | syscallStats (arg : SyscallCr)
  | checkSyscall (arg : CheckSyscallCr)
  | checkUid (arg : CheckUidCr)
  | checkProg (arg : CheckPrognameCr)
  | number (arg : Int)
  | syscalls (list : List Int)
  | uids (list : List UInt32)
  | progs (list : List Comm)
  | fetchAll (arg : FetchAll)
  | torn (w : UserWrite) (n : Nat)
  deriving DecidableEq

def intBytes (x : Int) : List UInt8 :=
  Word.bytes32 (UInt32.ofInt x)

namespace UserWrite

/-- The structures as they lie in memory, with their padding. -/
def bytes : UserWrite → List UInt8
  | threadStats arg =>
    intBytes arg.type ++ Word.bytes32 arg.pad0 ++ Word.bytes64 arg.mean
      ++ Word.bytes64 arg.sumBlocked ++ Word.bytes64 arg.elapsed ++ intBytes arg.peakBlocked
      ++ Word.bytes32 arg.pad1
  | syscallStats arg =>
    intBytes arg.syscallNr ++ Word.bytes32 arg.pad0 ++ Word.bytes64 arg.peakDelay
      ++ arg.peakProgName.toList ++ Word.bytes32 arg.peakUid ++ Word.bytes32 arg.pad1
  | checkSyscall arg => intBytes arg.syscallNr ++ intBytes arg.check
  | checkUid arg => Word.bytes32 arg.uid ++ intBytes arg.check
  | checkProg arg => arg.name.toList ++ intBytes arg.check
  | number arg => intBytes arg
  | syscalls list => list.flatMap intBytes
  | uids list => list.flatMap Word.bytes32
  | progs list => list.flatMap fun name => name.toList
  | fetchAll arg => Word.bytes64 arg.list ++ Word.bytes32 arg.max ++ Word.bytes32 arg.copied
  | torn w n => w.bytes.take n

def upTo (w : UserWrite) (n : Nat) : UserWrite :=
  if n = w.bytes.length then w else .torn w n

end UserWrite

structure IoctlResult (K : Platform) where
  ret : Int
  out : List UserWrite
  state : State K

namespace IoctlResult

def fail (e : Int) (s : State K) : IoctlResult K :=
  { ret := -e, out := [], state := s }

def ofApi (r : Int × State K) : IoctlResult K :=
  { ret := r.1, out := [], state := r.2 }

def ofMonitor (s : State K) (r : Int × Monitor) : IoctlResult K :=
  { ret := r.1, out := [], state := { s with mon := r.2 } }

end IoctlResult

def copyOut (env : Env) (k : Nat) (w : UserWrite) (s : State K) : IoctlResult K :=
  let size := w.bytes.length
  let copied := env.copied k size
  { ret := if copied = size then 0 else -EFAULT, out := [w.upTo copied], state := s }

/-- The size of a copy of `copied` elements of four bytes, as an `unsigned long`. -/
def wordsToCopy (copied : Nat) : Nat :=
  toSize (copied * 4)

/-- The size of a copy of `copied` names. The product is an `int` before it is converted. -/
def bytesToCopy (copied : Nat) : Nat :=
  toSize (toInt (copied * 16))

def fetchAll {α : Type} (env : Env) (arg : FetchAll)
    (getAll : Env → Int → State K → Except Int (Ptr × List α) × State K) (size : Nat → Nat)
    (write : List α → UserWrite) (s : State K) : IoctlResult K :=
  if env.copyFromUser = false then
    .fail EFAULT s
  else if arg.max = 0 ∨ arg.list = 0 then
    .fail EFAULT s
  else
    match getAll env (toInt arg.max.toNat) s with
    | (.error e, s) => { ret := e, out := [], state := s }
    | (.ok (buffer, copied), s) =>
      if copied.length = 0 then
        -- the early return does not free the buffer
        { ret := 0, out := [], state := s }
      else
        let n := env.copied 0 (size copied.length)
        let list := (write copied).upTo n
        let s := { s with heap := s.heap.kfree buffer }
        if n ≠ size copied.length then
          { ret := -EFAULT, out := [list], state := s }
        else
          let arg := { arg with copied := UInt32.ofNat copied.length }
          let r := copyOut env 1 (.fetchAll arg) s
          { r with out := list :: r.out }

def queryIoctl (env : Env) (s : State K) : Cmd → Option (IoctlResult K)
  | .getThreadStats arg => some <|
    if env.copyFromUser = false then
      .fail EFAULT s
    else if arg.type < 0 ∨ arg.type > 1 then
      .fail EINVAL s
    else
      match getThreadStats env arg.type s with
      | (.error e, s) => { ret := e, out := [], state := s }
      | (.ok (_, out), s) => copyOut env 0 (.threadStats out) s
  | .getSyscallStats arg => some <|
    if env.copyFromUser = false then
      .fail EFAULT s
    else if arg.syscallNr < 0 ∨ arg.syscallNr ≥ K.nrSyscalls then
      .fail EINVAL s
    else
      match getSyscallStats env arg.syscallNr s with
      | (.error e, s) => { ret := e, out := [], state := s }
      | (.ok (p, out), s) => copyOut env 0 (.syscallStats out) { s with heap := s.heap.kfree p }
  | .checkSyscall arg => some <|
    if env.copyFromUser = false then
      .fail EFAULT s
    else if arg.syscallNr < 0 ∨ arg.syscallNr ≥ K.nrSyscalls then
      .fail 1 s
    else
      copyOut env 0 (.checkSyscall { arg with check := checkSyscall arg.syscallNr s.sys }) s
  | .checkUid arg => some <|
    if env.copyFromUser = false then
      .fail EFAULT s
    else
      copyOut env 0 (.checkUid { arg with check := checkUid K arg.uid s.uids }) s
  | .checkProg arg => some <|
    if env.copyFromUser = false then
      .fail EFAULT s
    else
      let arg := { arg with name := arg.name.terminate }
      copyOut env 0 (.checkProg { arg with check := checkProgname K arg.name s.progs }) s
  | .getNumber arg => some <|
    if env.copyFromUser = false then
      .fail EFAULT s
    else if arg < 0 ∨ arg > 2 then
      .fail EINVAL s
    else if getLenght arg s < 0 then
      .fail 1 s
    else if env.copied 0 4 = 4 then
      { ret := 0, out := [.number (getLenght arg s)], state := s }
    else
      -- `put_user` stores the number as a whole, or not at all
      .fail EFAULT s
  | .getAllSyscalls arg => some (fetchAll env arg getAllSyscalls wordsToCopy .syscalls s)
  | .getAllUids arg => some (fetchAll env arg getAllUids wordsToCopy .uids s)
  | .getAllProgs arg => some (fetchAll env arg getAllProgs bytesToCopy .progs s)
  | _ => none

def rootIoctl (env : Env) (s : State K) : Cmd → IoctlResult K
  | .registerSyscall arg =>
    if env.copyFromUser = false then
      .fail EFAULT s
    else if arg < 0 ∨ arg ≥ K.nrSyscalls then
      .fail EINVAL s
    else
      .ofApi (registerSystemCall env arg s)
  | .registerUid arg =>
    if env.copyFromUser = false then
      .fail EFAULT s
    else
      .ofApi (registerUserId env arg s)
  | .registerProg arg =>
    if env.copyFromUser = false then
      .fail EFAULT s
    else
      .ofApi (registerProgName env (strncpyFromUser arg).terminate s)
  | .deregisterSyscall arg =>
    if env.copyFromUser = false then
      .fail EFAULT s
    else if arg < 0 ∨ arg ≥ K.nrSyscalls then
      .fail EINVAL s
    else
      .ofApi (deregisterSystemCall arg s)
  | .deregisterUid arg =>
    if env.copyFromUser = false then
      .fail EFAULT s
    else
      .ofApi (deregisterUserId arg s)
  | .deregisterProg arg =>
    if env.copyFromUser = false then
      .fail EFAULT s
    else
      .ofApi (deregisterProgName (strncpyFromUser arg).terminate s)
  | .setMaxCalls arg =>
    if env.copyFromUser = false then
      .fail EFAULT s
    else
      .ofMonitor s (s.mon.setMaxSyscall arg)
  | .monitorOn => .ofMonitor s (s.mon.switchOnMonitor K)
  | .monitorOff => .ofMonitor s s.mon.switchOffMonitor
  | _ => .fail EINVAL s

def throttlingIoctl (env : Env) (euid : UInt32) (cmd : Cmd) (s : State K) : IoctlResult K :=
  match queryIoctl env s cmd with
  | some r => r
  | none =>
    if euid ≠ 0 then
      .fail EPERM s
    else
      rootIoctl env s cmd

structure Device where
  major : Option Int
  cls : Bool
  node : Bool
  deriving DecidableEq

/--
How the kernel answers the steps of a load: whether the search finds the syscall table, the address
the kprobe on `x64_sys_call` resolves to, the major number, and the error pointers.
-/
structure LoadEnv where
  tableFound : Bool
  kprobe : Option Nat
  registerChrdev : Int
  classCreate : Except Int Unit
  deviceCreate : Except Int Unit

namespace Device

def none : Device :=
  { major := Option.none, cls := false, node := false }

def init (env : LoadEnv) (d : Device) : Int × Device :=
  if env.registerChrdev < 0 then
    (env.registerChrdev, d)
  else
    let d := { d with major := some env.registerChrdev }
    match env.classCreate with
    | .error e => (e, { d with major := Option.none })
    | .ok _ =>
      let d := { d with cls := true }
      match env.deviceCreate with
      | .error e => (e, { d with cls := false, major := Option.none })
      | .ok _ => (0, { d with node := true })

def cleanup (d : Device) : Device :=
  let d := { d with node := false }
  let d := { d with cls := false }
  { d with major := Option.none }

end Device

end Throttling

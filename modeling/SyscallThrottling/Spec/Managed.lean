import SyscallThrottling.Impl.Menu
import SyscallThrottling.Spec.Hooks

/-!
This module contains what an administrator sees of the module through its interface: the system
calls, uids and names that are registered, whether the monitor is on and its limit. Statistics and
listings are left open. The selectors of `count` and the test of the entries for uids are those of
the code.
-/

namespace Throttling

structure Managed (K : Platform) where
  hooks : Finset (Fin K.nrSyscalls)
  registered : Registered
  on : Bool
  max : Int

variable {K : Platform}

def syscallNr? (K : Platform) (n : Int) : Option (Fin K.nrSyscalls) :=
  if h : 0 ≤ n ∧ n.toNat < K.nrSyscalls then some ⟨n.toNat, h.2⟩ else none

namespace Managed

def initial (K : Platform) : Managed K where
  hooks := ∅
  registered := .empty
  on := true
  max := 3

variable (A : Managed K)

def updateHooks (op : HookOp K) : Int × Managed K :=
  let (ret, hooks) := op.apply A.hooks
  (ret, { A with hooks })

def updateRegistered (cmd : RegistryCmd) : Int × Managed K :=
  let (ret, _, registered) := A.registered.step cmd
  (ret, { A with registered })

def switch (on : Bool) : Int × Managed K :=
  if A.on = on then (-EALREADY, A) else (0, { A with on })

def setMax (max : Int) : Int × Managed K :=
  if max ≤ 0 then (-EINVAL, A) else (0, { A with max })

/-- How many are registered, by the selector: 0 counts the uids and 1 the system calls. -/
def count (selector : Int) : Int :=
  if selector = 0 then
    toInt A.registered.uids.card
  else if selector = 1 then
    A.hooks.card
  else
    toInt A.registered.names.card

/-- Only root may update, and a number that is no system call is refused. -/
def tell (root : Bool) (expected : Int) (done failed : Message) (r : Option (Int × Managed K))
    : Message × Managed K :=
  match root, r with
  | true, some (ret, A) => (report ret expected done failed, A)
  | _, _ => (.error, A)

/--
What an entry shows, as far as it is determined, and what it changes. The entries for uids are
refused by the number that another entry has read before.
-/
def step (root : Bool) (inp : Round) (g : Interface)
    : MenuEntry → Option Message × Interface × Managed K
  | .registerSyscall =>
    let g := g.scanInt inp
    let e := .syscall g.intVal
    if g.intVal < 0 then
      (some .invalid, g, A)
    else
      let r := (syscallNr? K g.intVal).map fun n => A.updateHooks (.register true n)
      let (message, A) := A.tell root EEXIST (.registered e) (.alreadyRegistered e) r
      (some message, g, A)
  | .deregisterSyscall =>
    let g := g.scanInt inp
    let e := .syscall g.intVal
    if g.intVal < 0 then
      (some .invalid, g, A)
    else
      let r := (syscallNr? K g.intVal).map fun n => A.updateHooks (.deregister n)
      let (message, A) := A.tell root ENOENT (.deregistered e) (.notRegistered e) r
      (some message, g, A)
  | .registerUid =>
    let g := g.scanUid inp
    let e := .uid g.uidVal
    if g.intVal < 0 then
      (some .invalid, g, A)
    else
      let r := A.updateRegistered (.registerUid g.uidVal)
      let (message, A) := A.tell root EEXIST (.registered e) (.alreadyRegistered e) (some r)
      (some message, g, A)
  | .deregisterUid =>
    let g := g.scanUid inp
    let e := .uid g.uidVal
    if g.intVal < 0 then
      (some .invalid, g, A)
    else
      let r := A.updateRegistered (.deregisterUid g.uidVal)
      let (message, A) := A.tell root ENOENT (.deregistered e) (.notRegistered e) (some r)
      (some message, g, A)
  | .registerProg =>
    let g := g.scanStr inp
    let e := .prog g.strVal.str
    let r := A.updateRegistered (.registerProg g.strVal.toList)
    let (message, A) := A.tell root EEXIST (.registered e) (.alreadyRegistered e) (some r)
    (some message, g, A)
  | .deregisterProg =>
    let g := g.scanStr inp
    let e := .prog g.strVal.str
    let r := A.updateRegistered (.deregisterProg g.strVal.toList)
    let (message, A) := A.tell root ENOENT (.deregistered e) (.notRegistered e) (some r)
    (some message, g, A)
  | .setMax =>
    let g := g.scanInt inp
    let (message, A) := A.tell root EINVAL (.maxSet g.intVal) .invalidMax (some (A.setMax g.intVal))
    (some message, g, A)
  | .monitorOn =>
    let (message, A) := A.tell root EALREADY .on .alreadyOn (some (A.switch true))
    (some message, g, A)
  | .monitorOff =>
    let (message, A) := A.tell root EALREADY .off .alreadyOff (some (A.switch false))
    (some message, g, A)
  | .threadStats => (none, g.scanInt inp, A)
  | .syscallStats =>
    let n := inp.number.getD 0
    match syscallNr? K n with
    | none => (some .error, g, A)
    | some i => (if i ∈ A.hooks then none else some (.notRegistered (.syscall n)), g, A)
  | .checkSyscall =>
    let n := inp.number.getD 0
    match syscallNr? K n with
    | none => (some .error, g, A)
    | some i => (some (.checked (.syscall n) (i ∈ A.hooks)), g, A)
  | .checkUid =>
    let uid := (inp.number.map UInt32.ofInt).getD 0
    (some (.checked (.uid uid) (uid ∈ A.registered.uids)), g, A)
  | .checkProg =>
    let name := progKey ((inp.word.map (Comm.ofBytes []).scanWord).getD (Comm.ofBytes [])).toList
    (some (.checked (.prog name) (name ∈ A.registered.names)), g, A)
  | .number =>
    let g := g.scanInt inp
    if g.intVal < 0 ∨ g.intVal > 2 then
      (some .invalidSelector, g, A)
    else if A.count g.intVal < 0 then
      (some .error, g, A)
    else
      (some (.number (A.count g.intVal)), { g with intVal := A.count g.intVal }, A)
  | .list _ => (none, g, A)

def session (root : Bool) (g : Interface) (A : Managed K)
    : List Turn → List (Option Message) × Managed K
  | [] => ([], A)
  | .tick _ :: turns => session root g A turns
  | .timer :: turns => session root g A turns
  | .round inp :: turns =>
    match inp.choice with
    | none => session root g A turns
    | some choice =>
      if choice = 0 then
        ([some .closed], A)
      else
        match MenuEntry.ofChoice choice with
        | none =>
          let (messages, A) := session root g A turns
          (some .unknownChoice :: messages, A)
        | some entry =>
          let (message, g, A) := A.step root inp g entry
          let (messages, A) := session root g A turns
          (message :: messages, A)

end Managed

end Throttling

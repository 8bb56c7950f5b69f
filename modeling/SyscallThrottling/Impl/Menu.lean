import SyscallThrottling.Impl.Interface

/-!
This module contains the loop of `user/interface.c`: what its entries read, which command they issue
and which of the messages they print. The variables that are declared outside of the loop keep their
values from entry to entry, and hold anything at first.
-/

namespace Throttling

variable {K : Platform}

structure Interface where
  intVal : Int
  uidVal : UInt32
  strVal : Comm
  deriving DecidableEq

/--
What is typed in a round of the loop, and how the kernel answers its commands. `none` is an input
that `scanf` does not convert; a word has at most 15 bytes.
-/
structure Round where
  choice : Option Int
  number : Option Int
  word : Option (List UInt8)
  env : Env × Env
  malloc : UInt64

inductive MenuEntry where
  | registerSyscall
  | registerUid
  | registerProg
  | deregisterSyscall
  | deregisterUid
  | deregisterProg
  | setMax
  | monitorOn
  | monitorOff
  | threadStats
  | syscallStats
  | checkSyscall
  | checkUid
  | checkProg
  | number
  | list (kind : Kind)
  deriving DecidableEq

def MenuEntry.ofChoice : Int → Option MenuEntry
  | 1 => some .registerSyscall
  | 4 => some .deregisterSyscall
  | 2 => some .registerUid
  | 5 => some .deregisterUid
  | 3 => some .registerProg
  | 6 => some .deregisterProg
  | 7 => some .setMax
  | 8 => some .monitorOn
  | 9 => some .monitorOff
  | 10 => some .threadStats
  | 11 => some .syscallStats
  | 12 => some .checkSyscall
  | 13 => some .checkUid
  | 14 => some .checkProg
  | 15 => some .number
  | 16 => some (.list .syscalls)
  | 17 => some (.list .uids)
  | 18 => some (.list .progs)
  | _ => none

inductive Message where
  | closed
  | unknownChoice
  | invalid
  | error
  | registered (e : Entity)
  | alreadyRegistered (e : Entity)
  | deregistered (e : Entity)
  | notRegistered (e : Entity)
  | maxSet (newMax : Int)
  | invalidMax
  | on
  | alreadyOn
  | off
  | alreadyOff
  | threadStats (shown : StatsShown)
  | syscallStats (stats : SyscallCr)
  | checked (e : Entity) (check : Bool)
  | invalidSelector
  | number (n : Int)
  | listing (shown : Listing)

/-- `expected` is the error that has a message of its own. -/
def report (ret expected : Int) (done failed : Message) : Message :=
  if ret < 0 then
    if ret = -expected then failed else .error
  else
    done

namespace Comm

/-- `scanf("%15s", ..)` with the word `w`. -/
def scanWord (old : Comm) (w : List UInt8) : Comm :=
  Vector.ofFn fun i =>
    if (i : Nat) < w.length then
      w.getD i 0
    else if (i : Nat) = w.length then
      0
    else
      old.get i

end Comm

namespace Interface

def scanInt (g : Interface) (inp : Round) : Interface :=
  { g with intVal := inp.number.getD g.intVal }

def scanUid (g : Interface) (inp : Round) : Interface :=
  { g with uidVal := (inp.number.map UInt32.ofInt).getD g.uidVal }

def scanStr (g : Interface) (inp : Round) : Interface :=
  { g with strVal := (inp.word.map g.strVal.scanWord).getD g.strVal }

end Interface

def readSyscallStats (sStats : SyscallCr) : List UserWrite → SyscallCr
  | [.syscallStats cr] => cr
  | _ => sStats

def readCheckSyscall (cSys : CheckSyscallCr) : List UserWrite → CheckSyscallCr
  | [.checkSyscall arg] => arg
  | _ => cSys

def readCheckUid (cUid : CheckUidCr) : List UserWrite → CheckUidCr
  | [.checkUid arg] => arg
  | _ => cUid

def readCheckProg (cProg : CheckPrognameCr) : List UserWrite → CheckPrognameCr
  | [.checkProg arg] => arg
  | _ => cProg

def listingState (env : Env × Env) (euid : UInt32) (malloc : UInt64) (kind : Kind) (s : State K)
    : State K :=
  let r := throttlingIoctl env.1 euid (.getNumber kind.selector) s
  let count := readNumber kind.selector r.out
  if r.ret < 0 ∨ count = 0 ∨ malloc = 0 then
    r.state
  else
    let f : FetchAll := { list := malloc, max := UInt32.ofInt count, copied := 0 }
    (throttlingIoctl env.2 euid (kind.fetch f) r.state).state

namespace MenuEntry

def issue (inp : Round) (euid : UInt32) (cmd : Cmd) (expected : Int) (done failed : Message)
    (g : Interface) (s : State K) : Message × Interface × State K :=
  let r := throttlingIoctl inp.env.1 euid cmd s
  (report r.ret expected done failed, g, r.state)

/--
The test of `int_val`, which the entries for uids make as well: they do not test what they have
read.
-/
def guarded (g : Interface) (s : State K) (rest : Message × Interface × State K)
    : Message × Interface × State K :=
  if g.intVal < 0 then (.invalid, g, s) else rest

def run (inp : Round) (euid : UInt32) (g : Interface) (s : State K)
    : MenuEntry → Message × Interface × State K
  | .registerSyscall =>
    let g := g.scanInt inp
    let e := .syscall g.intVal
    guarded g s (issue inp euid (.registerSyscall g.intVal) EEXIST (.registered e)
      (.alreadyRegistered e) g s)
  | .deregisterSyscall =>
    let g := g.scanInt inp
    let e := .syscall g.intVal
    guarded g s (issue inp euid (.deregisterSyscall g.intVal) ENOENT (.deregistered e)
      (.notRegistered e) g s)
  | .registerUid =>
    let g := g.scanUid inp
    let e := .uid g.uidVal
    guarded g s (issue inp euid (.registerUid g.uidVal) EEXIST (.registered e)
      (.alreadyRegistered e) g s)
  | .deregisterUid =>
    let g := g.scanUid inp
    let e := .uid g.uidVal
    guarded g s (issue inp euid (.deregisterUid g.uidVal) ENOENT (.deregistered e)
      (.notRegistered e) g s)
  | .registerProg =>
    let g := g.scanStr inp
    let e := .prog g.strVal.str
    issue inp euid (.registerProg g.strVal.toList) EEXIST (.registered e) (.alreadyRegistered e) g s
  | .deregisterProg =>
    let g := g.scanStr inp
    let e := .prog g.strVal.str
    issue inp euid (.deregisterProg g.strVal.toList) ENOENT (.deregistered e) (.notRegistered e) g s
  | .setMax =>
    let g := g.scanInt inp
    issue inp euid (.setMaxCalls g.intVal) EINVAL (.maxSet g.intVal) .invalidMax g s
  | .monitorOn => issue inp euid .monitorOn EALREADY .on .alreadyOn g s
  | .monitorOff => issue inp euid .monitorOff EALREADY .off .alreadyOff g s
  | .threadStats =>
    let g := g.scanInt inp
    let cmd := .getThreadStats
      { type := g.intVal, pad0 := 0, mean := 0, sumBlocked := 0, elapsed := 0, peakBlocked := 0,
        pad1 := 0 }
    (.threadStats (Throttling.threadStats inp.env.1 euid g.intVal s), g,
      (throttlingIoctl inp.env.1 euid cmd s).state)
  | .syscallStats =>
    let sStats : SyscallCr :=
      { syscallNr := inp.number.getD 0, pad0 := 0, peakDelay := 0, peakProgName := Comm.ofBytes [],
        peakUid := 0, pad1 := 0 }
    let r := throttlingIoctl inp.env.1 euid (.getSyscallStats sStats) s
    (report r.ret ENOENT (.syscallStats (readSyscallStats sStats r.out))
      (.notRegistered (.syscall sStats.syscallNr)), g, r.state)
  | .checkSyscall =>
    let cSys : CheckSyscallCr := { syscallNr := inp.number.getD 0, check := 0 }
    let r := throttlingIoctl inp.env.1 euid (.checkSyscall cSys) s
    let shown := readCheckSyscall cSys r.out
    (if r.ret < 0 then .error else .checked (.syscall shown.syscallNr) (shown.check ≠ 0),
      g, r.state)
  | .checkUid =>
    let cUid : CheckUidCr := { uid := (inp.number.map UInt32.ofInt).getD 0, check := 0 }
    let r := throttlingIoctl inp.env.1 euid (.checkUid cUid) s
    let shown := readCheckUid cUid r.out
    (if r.ret < 0 then .error else .checked (.uid shown.uid) (shown.check ≠ 0), g, r.state)
  | .checkProg =>
    let cProg : CheckPrognameCr :=
      { name := (inp.word.map (Comm.ofBytes []).scanWord).getD (Comm.ofBytes []), check := 0 }
    let r := throttlingIoctl inp.env.1 euid (.checkProg cProg) s
    let shown := readCheckProg cProg r.out
    (if r.ret < 0 then .error else .checked (.prog shown.name.str) (shown.check ≠ 0), g, r.state)
  | .number =>
    let g := g.scanInt inp
    if g.intVal < 0 ∨ g.intVal > 2 then
      (.invalidSelector, g, s)
    else
      -- the command writes its answer to `int_val`
      let r := throttlingIoctl inp.env.1 euid (.getNumber g.intVal) s
      let g := { g with intVal := readNumber g.intVal r.out }
      (if r.ret < 0 then .error else .number g.intVal, g, r.state)
  | .list kind =>
    (.listing (listing inp.env euid inp.malloc kind s), g,
      listingState inp.env euid inp.malloc kind s)

end MenuEntry

inductive Turn where
  | tick (d : Nat)
  | timer
  | round (inp : Round)

def session (euid : UInt32) (g : Interface) (s : State K) : List Turn → List Message × State K
  | [] => ([], s)
  | .tick d :: turns =>
    session euid g { s with mon := { s.mon with jiffies := s.mon.jiffies + d } } turns
  | .timer :: turns => session euid g { s with mon := s.mon.runTimer K } turns
  | .round inp :: turns =>
    match inp.choice with
    | none => session euid g s turns
    | some choice =>
      if choice = 0 then
        ([.closed], s)
      else
        match MenuEntry.ofChoice choice with
        | none =>
          let (messages, s) := session euid g s turns
          (.unknownChoice :: messages, s)
        | some entry =>
          let (message, g, s) := entry.run inp euid g s
          let (messages, s) := session euid g s turns
          (message :: messages, s)

end Throttling

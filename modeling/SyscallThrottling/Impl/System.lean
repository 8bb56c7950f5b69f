import SyscallThrottling.Impl.Mod
import SyscallThrottling.Impl.Wrapper
import SyscallThrottling.Lib.Interleaving

/-!
This module contains the loaded module as an interleaved system: any number of system call
invocations and of calls that switch the monitor or update the syscall table, the timer, and the
clock. A thread number stands for one such call and is used once.
-/

namespace Throttling

open Interleaving

inductive Task (K : Platform) where
  | syscall (regs : PtRegs K) (euid : UInt32) (comm : Comm)
  | switchOn
  | switchOff
  | register (env : Env) (sysNum : Int)
  | deregister (sysNum : Int)

inductive Thread (K : Platform) where
  | idle
  | wrapper (w : Wrapper K)
  | switchOn (pc : SwitchOnPc)
  | switchOff (pc : SwitchOffPc)
  | register (f : Register K)
  | deregister (f : Deregister K)

/--
The steps that are no thread's: time, the timer, and the calls whose effect is one atomic operation
or one critical section. The latter need `write_lock` to be free.
-/
inductive EnvStep where
  | tick (d : Nat)
  | expire
  | handler
  | setMax (newMax : Int)
  | registerUid (env : Env) (uid : UInt32)
  | deregisterUid (uid : UInt32)
  | registerProg (env : Env) (name : Comm)
  | deregisterProg (name : Comm)

variable {K : Platform}

def Task.thread : Task K → Thread K
  | .syscall regs euid comm => .wrapper (.initial regs euid comm)
  | .switchOn => .switchOn .cmpxchg
  | .switchOff => .switchOff .cmpxchg
  | .register env sysNum => .register { env, safeNr := arrayIndexNospec K sysNum, pc := .alloc }
  | .deregister sysNum => .deregister { safeNr := arrayIndexNospec K sysNum, pc := .lock }

namespace Shared

def locked (s : Shared K) (st : State K) : Option (Shared K × List (Event K)) :=
  if s.writeLock = none then
    some ({ s with st }, [])
  else
    none

def envStep (s : Shared K) : EnvStep → Option (Shared K × List (Event K))
  | .tick d => some (s.setMon { s.st.mon with jiffies := s.st.mon.jiffies + d }, [])
  | .expire =>
    match s.st.mon.epochTimer, s.handler with
    | some expires, none =>
      if expires ≤ s.st.mon.jiffies then
        some ((s.setMon { s.st.mon with epochTimer := none }).setHandler (some .check), [])
      else
        none
    | _, _ => none
  | .handler => s.handler.map (HandlerPc.step s)
  | .setMax newMax => some (s.setMon (s.st.mon.setMaxSyscall newMax).2, [])
  | .registerUid env uid => s.locked (registerUserId env uid s.st).2
  | .deregisterUid uid => s.locked (deregisterUserId uid s.st).2
  | .registerProg env name => s.locked (registerProgName env name s.st).2
  | .deregisterProg name => s.locked (deregisterProgName name s.st).2

end Shared

def Thread.step (i : Nat) (ch : Choice (Task K)) (s : Shared K)
    : Thread K → Option (Shared K × Thread K × List (Event K))
  | .idle =>
    match ch with
    | .start task => some (s, task.thread, [])
    | _ => none
  | .wrapper w => (w.step i ch s).map fun (s, w, ev) => (s, .wrapper w, ev)
  | .switchOn pc => (pc.step s).map fun (s, pc) => (s, .switchOn pc, [])
  | .switchOff pc => (pc.step s).map fun (s, pc) => (s, .switchOff pc, [])
  | .register f => (f.step i s).map fun (s, f) => (s, .register f, [])
  | .deregister f => (f.step i s).map fun (s, f) => (s, .deregister f, [])

def throttling (K : Platform)
    : System (Shared K) (Thread K) EnvStep (Choice (Task K)) (Event K) where
  env e s := s.envStep e
  thread := Thread.step

abbrev Cfg (K : Platform) := Config (Shared K) (Thread K) (Event K)

abbrev Lbl (K : Platform) := Label EnvStep (Choice (Task K))

def loaded (K : Platform) (T : SyscallTable K) (stats : Ptr → SyscallStats) (now : Nat)
    : Cfg K where
  shared :=
    { st := State.loaded K T stats now
      writeLock := none
      handler := none
      sections := [] }
  locals _ := .idle
  trace := []

def Reachable (K : Platform) (T : SyscallTable K) (c : Cfg K) : Prop :=
  ∃ stats now, (throttling K).Reaches (loaded K T stats now) c

theorem reachable_trans {T : SyscallTable K} {c c' : Cfg K} (h : Reachable K T c)
    (h' : (throttling K).Reaches c c') : Reachable K T c' := by
  obtain ⟨stats, now, h⟩ := h
  exact ⟨stats, now, h.trans h'⟩

def sampleLoaded : Cfg Platform.sample :=
  loaded Platform.sample SyscallTable.sample (fun _ => .zero) 0

def sampleRun (g : Cfg Platform.sample → Lbl Platform.sample → Bool)
    (ls : List (Lbl Platform.sample)) : Option (Cfg Platform.sample) :=
  (throttling Platform.sample).exec g sampleLoaded ls

theorem reachable_sampleRun {g : Cfg Platform.sample → Lbl Platform.sample → Bool}
    {ls : List (Lbl Platform.sample)} (h : (sampleRun g ls).isSome)
    : Reachable Platform.sample SyscallTable.sample ((sampleRun g ls).get h) :=
  ⟨_, _, (System.run_exec_get h).reaches⟩

def steps (i k : Nat) : List (Lbl Platform.sample) :=
  List.replicate k (.run i .go)

def sampleRegs : PtRegs Platform.sample where
  origAx := ⟨83, by decide⟩
  args := [7]

def sampleCall (i : Nat) : Lbl Platform.sample :=
  .run i (.start (.syscall sampleRegs 1000 (Comm.ofBytes [])))

/-- The uid 1000 is registered, and thread 0 registers the system call 83. -/
def sampleSetup : List (Lbl Platform.sample) :=
  .env (.registerUid Env.sample 1000) :: .run 0 (.start (.register Env.sample 83)) :: steps 0 9

end Throttling

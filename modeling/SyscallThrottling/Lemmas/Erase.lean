import SyscallThrottling.Impl.History

/-!
This module contains the erasure of what fresh memory holds: the steps of the system commute with
it, so that the contents of the memory that the allocator returns decide no step.
-/

namespace Throttling

open Interleaving

variable {K : Platform}

section Erase

def Env.erase (env : Env) : Env :=
  { env with junk := Env.sample.junk }

/-- The name is erased as a whole, since a registration does not write it. -/
def SyscallStats.erase (x : SyscallStats) : SyscallStats :=
  { x with pad0 := 0, peakProgName := Vector.replicate 16 0, pad1 := 0 }

def SyscallRegistry.erase (r : SyscallRegistry K) : SyscallRegistry K :=
  { r with stats := fun p => (r.stats p).erase }

def State.erase (s : State K) : State K :=
  { s with sys := s.sys.erase }

def Shared.erase (s : Shared K) : Shared K :=
  { s with st := s.st.erase }

def Register.erase (f : Register K) : Register K :=
  { f with env := f.env.erase }

def Thread.erase : Thread K → Thread K
  | .register f => .register f.erase
  | t => t

def Task.erase : Task K → Task K
  | .register env sysNum => .register env.erase sysNum
  | task => task

def Choice.erase : Choice (Task K) → Choice (Task K)
  | .start task => .start task.erase
  | ch => ch

def EnvStep.erase : EnvStep → EnvStep
  | .registerUid env uid => .registerUid env.erase uid
  | .registerProg env name => .registerProg env.erase name
  | e => e

def Action.erase : Action K → Action K
  | .query env cmd => .query env.erase cmd
  | .step (.env e) => .step (.env e.erase)
  | .step (.run i ch) => .step (.run i ch.erase)

def eraseCfg (c : Cfg K) : Cfg K where
  shared := c.shared.erase
  locals i := (c.locals i).erase
  trace := c.trace

end Erase

section Steps

variable {s : Shared K} {i : Nat}

theorem erase_update (stats : Ptr → SyscallStats) (p : Ptr) (x : SyscallStats)
    : (fun q => (Function.update stats p x q).erase)
        = Function.update (fun q => (stats q).erase) p x.erase :=
  Function.comp_update SyscallStats.erase stats p x

theorem updateStats_erase (s : Shared K) (p : Ptr) (w : Wrapper K)
    : (Wrapper.updateStats s.erase p w).erase = (Wrapper.updateStats s p w).erase := by
  simp only [Wrapper.updateStats, Shared.erase, State.erase, SyscallRegistry.erase, Shared.setSys,
    erase_update]
  rfl

theorem rcuReadUnlock_erase (s : Shared K) (i : Nat)
    : (s.rcuReadUnlock i).erase = s.erase.rcuReadUnlock i := rfl

theorem hashAdd_erase (r : SyscallRegistry K) (node : HackedSyscall K) (junk junk' : SyscallStats)
    (n : Fin K.nrSyscalls)
    : (r.erase.hashAdd node (freshStats junk n)).erase
        = (r.hashAdd node (freshStats junk' n)).erase := by
  simp only [SyscallRegistry.hashAdd, SyscallRegistry.erase, erase_update]
  rfl

theorem HandlerPc.step_erase (s : Shared K) (pc : HandlerPc)
    : pc.step s.erase = (pc.step s).map Shared.erase id := by
  obtain ⟨⟨sys, uids, progs, mon, heap⟩, lock, handler⟩ := s
  cases pc <;> dsimp only [HandlerPc.step, Shared.erase, State.erase]
  case check => split <;> rfl
  case readPeak => split <;> rfl
  all_goals rfl

theorem SwitchOnPc.step_erase (s : Shared K) (pc : SwitchOnPc)
    : pc.step s.erase = (pc.step s).map (Prod.map Shared.erase id) := by
  obtain ⟨⟨sys, uids, progs, mon, heap⟩, lock, handler⟩ := s
  cases pc <;> dsimp only [SwitchOnPc.step, Shared.erase, State.erase]
  case cmpxchg => split <;> rfl
  all_goals rfl

theorem SwitchOffPc.step_erase (s : Shared K) (pc : SwitchOffPc)
    : pc.step s.erase = (pc.step s).map (Prod.map Shared.erase id) := by
  obtain ⟨⟨sys, uids, progs, mon, heap⟩, lock, handler⟩ := s
  cases pc <;> dsimp only [SwitchOffPc.step, Shared.erase, State.erase]
  case cmpxchg => split <;> rfl
  case timerDelete => split <;> rfl
  all_goals rfl

theorem Wrapper.step_erase (w : Wrapper K) (ch : Choice (Task K))
    : (w.step i ch.erase s.erase).map (Prod.map Shared.erase id)
        = (w.step i ch s).map (Prod.map Shared.erase id) := by
  cases hpc : w.pc
  case statUpdate p =>
    cases ch <;> simp only [Wrapper.step, hpc, Choice.erase, Option.map_some, Option.map_none,
      Prod.map_apply, rcuReadUnlock_erase, updateStats_erase]
  case callOriginal =>
    cases hcall : w.toCall <;> cases ch <;> simp only [Wrapper.step, hpc, hcall, Choice.erase] <;> rfl
  all_goals
    obtain ⟨⟨⟨arr, tbl, hash, len, stats⟩, uids, progs, mon, heap⟩, lock, handler⟩ := s
    obtain ⟨regs, euid, comm, pc, needMon, toCall, startTime, delay⟩ := w
    cases hpc
    cases ch <;> try rfl
  all_goals
    dsimp only [Wrapper.step, Choice.erase, Shared.erase, State.erase, SyscallRegistry.erase,
      SyscallRegistry.lookup, SyscallStats.erase]
    split <;> rfl

theorem Register.step_erase (f : Register K)
    : (f.erase.step i s.erase).map (Prod.map Shared.erase Register.erase)
        = (f.step i s).map (Prod.map Shared.erase Register.erase) := by
  obtain ⟨env, safeNr, pc⟩ := f
  cases pc
  case hash node =>
    simp only [Register.step, Register.erase, Option.map_some, Prod.map_apply, Shared.setSys,
      Shared.erase, State.erase, hashAdd_erase s.st.sys node _ env.junk.stats]
    rfl
  all_goals
    obtain ⟨⟨⟨arr, tbl, hash, len, stats⟩, uids, progs, mon, heap⟩, lock, handler⟩ := s
    try rfl
  all_goals
    dsimp only [Register.step, Register.erase, Env.erase, Shared.erase, State.erase,
      SyscallRegistry.erase]
    repeat' split
    all_goals rfl

theorem Deregister.step_erase (f : Deregister K)
    : f.step i s.erase = (f.step i s).map (Prod.map Shared.erase id) := by
  obtain ⟨⟨⟨arr, tbl, hash, len, stats⟩, uids, progs, mon, heap⟩, lock, handler⟩ := s
  obtain ⟨safeNr, pc⟩ := f
  cases pc <;> try rfl
  all_goals
    dsimp only [Deregister.step, Shared.erase, State.erase, SyscallRegistry.erase,
      SyscallRegistry.lookup]
    split <;> rfl

theorem Shared.envStep_erase (s : Shared K) (e : EnvStep)
    : s.erase.envStep e.erase = (s.envStep e).map (Prod.map Shared.erase id) := by
  cases e with
  | handler =>
    simp only [Shared.envStep, EnvStep.erase, Shared.erase, Option.map_map]
    congr 1
    funext pc
    exact pc.step_erase s
  | expire =>
    obtain ⟨⟨sys, uids, progs, mon, heap⟩, lock, handler⟩ := s
    dsimp only [Shared.envStep, EnvStep.erase, Shared.erase, State.erase]
    repeat' split
    all_goals rfl
  | tick d => rfl
  | setMax newMax => rfl
  | _ =>
    obtain ⟨⟨sys, uids, progs, mon, heap⟩, lock, handler⟩ := s
    dsimp only [Shared.envStep, EnvStep.erase, Shared.erase, State.erase, Shared.locked, Env.erase,
      registerUserId, deregisterUserId, registerProgName, deregisterProgName]
    repeat' split
    all_goals rfl

theorem Thread.step_erase (t : Thread K) (ch : Choice (Task K))
    : (t.erase.step i ch.erase s.erase).map (Prod.map Shared.erase (Prod.map Thread.erase id))
        = (t.step i ch s).map (Prod.map Shared.erase (Prod.map Thread.erase id)) := by
  cases t with
  | idle =>
    cases ch with
    | start task => cases task <;> rfl
    | _ => rfl
  | wrapper w =>
    have h := congrArg (Option.map (Prod.map id (Prod.map Thread.wrapper id)))
      (Wrapper.step_erase (i := i) (s := s) w ch)
    simp only [Thread.step, Thread.erase, Option.map_map] at h ⊢
    exact h
  | switchOn pc =>
    simp only [Thread.step, Thread.erase, SwitchOnPc.step_erase, Option.map_map]
    rfl
  | switchOff pc =>
    simp only [Thread.step, Thread.erase, SwitchOffPc.step_erase, Option.map_map]
    rfl
  | register f =>
    have h := congrArg (Option.map fun r => (r.1, Thread.register r.2, ([] : List (Event K))))
      (Register.step_erase (i := i) (s := s) f)
    simp only [Thread.step, Thread.erase, Option.map_map] at h ⊢
    exact h
  | deregister f =>
    simp only [Thread.step, Thread.erase, Deregister.step_erase, Option.map_map]
    rfl

theorem Thread.erase_erase (t : Thread K) : t.erase.erase = t.erase := by
  cases t <;> rfl

theorem eraseCfg_update (s : Shared K) (l : Nat → Thread K) (i : Nat) (t : Thread K)
    (trace : List (Event K))
    : eraseCfg ⟨s, Function.update l i t, trace⟩
        = ⟨s.erase, Function.update (fun j => (l j).erase) i t.erase, trace⟩ := by
  simp only [eraseCfg, Config.mk.injEq, true_and, and_true]
  exact Function.comp_update Thread.erase l i t

theorem apply_run (c : Cfg K) (i : Nat) (ch : Choice (Task K))
    : (Action.step (.run i ch)).apply c
        = ((c.locals i).step i ch c.shared).map fun r =>
            ([], ⟨r.1, Function.update c.locals i r.2.1, r.2.2 ++ c.trace⟩) := by
  simp only [Action.apply, System.step, throttling]
  rcases (c.locals i).step i ch c.shared with _ | ⟨s, t, ev⟩ <;> rfl

theorem step_eraseCfg (c : Cfg K) (l : Lbl K)
    : ((Action.step l).erase.apply (eraseCfg c)).map (Prod.map id eraseCfg)
        = ((Action.step l).apply c).map (Prod.map id eraseCfg) := by
  cases l with
  | env e =>
    simp only [Action.erase, Action.apply, System.step, throttling, eraseCfg, Shared.envStep_erase]
    rcases c.shared.envStep e with _ | ⟨s, ev⟩
    . rfl
    . simp only [Option.map_some, Prod.map_apply, id, eraseCfg, Thread.erase_erase]
      rfl
  | run i ch =>
    have h := Thread.step_erase (i := i) (s := c.shared) (c.locals i) ch
    simp only [Action.erase, apply_run, eraseCfg]
    generalize (c.locals i).erase.step i ch.erase c.shared.erase = r' at h ⊢
    generalize (c.locals i).step i ch c.shared = r at h ⊢
    rcases r with _ | ⟨s, t, ev⟩ <;> rcases r' with _ | ⟨s', t', ev'⟩
    . rfl
    . simp at h
    . simp at h
    . simp only [Option.map_some, Prod.map_apply, id, Option.some.injEq, Prod.mk.injEq] at h
      obtain ⟨hs, ht, rfl⟩ := h
      simp only [Option.map_some, Prod.map_apply, eraseCfg_update, Thread.erase_erase, hs, ht]

end Steps

end Throttling

import SyscallThrottling.Lemmas.Ioctl

/-!
This module contains what a load and an unload of the module leave behind: the code of the
dispatcher, the syscall table and the timer.
-/

namespace Throttling

variable {K : Platform}

def Monitor.TimerStopped (m : Monitor) : Prop :=
  m.isMonitorActive = 1 ∨ (m.isMonitorActive = 0 ∧ m.epochTimer = none)

namespace Monitor.TimerStopped

variable {m : Monitor}

theorem loaded (T : SyscallTable K) (stats : Ptr → SyscallStats) (now : Nat)
    : (State.loaded K T stats now).mon.TimerStopped :=
  .inl rfl

theorem setMaxSyscall (h : m.TimerStopped) (newMax : Int)
    : (m.setMaxSyscall newMax).2.TimerStopped := by
  unfold Monitor.setMaxSyscall
  split <;> exact h

theorem switchOnMonitor (h : m.TimerStopped) : (m.switchOnMonitor K).2.TimerStopped := by
  unfold Monitor.switchOnMonitor
  split
  . exact .inl rfl
  . exact h

theorem switchOffMonitor (h : m.TimerStopped) : m.switchOffMonitor.2.TimerStopped := by
  unfold Monitor.switchOffMonitor
  split
  . exact .inr ⟨rfl, rfl⟩
  . exact h

theorem epochTimer_switchOffMonitor (h : m.TimerStopped)
    : m.switchOffMonitor.2.epochTimer = none := by
  unfold Monitor.switchOffMonitor
  split
  . rfl
  . next hne =>
    rcases h with h | h
    . exact absurd h hne
    . exact h.2

@[simp]
theorem isMonitorActive_epochHandler (m : Monitor)
    : (m.epochHandler K).isMonitorActive = m.isMonitorActive := by
  unfold epochHandler
  dsimp only
  split
  . rfl
  . split <;> rfl

theorem runTimer (h : m.TimerStopped) : (m.runTimer K).TimerStopped := by
  unfold Monitor.runTimer
  split
  . next expires heq =>
    split
    . rcases h with h | h
      . left
        rw [isMonitorActive_epochHandler]
        exact h
      . simp [heq] at h
    . exact h
  . exact h

theorem effect {env : Env} {s s' : State K} (h : s.mon.TimerStopped) (he : Effect env s s')
    : s'.mon.TimerStopped := by
  cases he with
  | heap heap => exact h
  | registerSyscall n =>
    obtain ⟨_, _, hs⟩ := registerSystemCall_frame env n s
    rwa [hs]
  | deregisterSyscall n =>
    obtain ⟨_, _, hs⟩ := deregisterSystemCall_frame n s
    rwa [hs]
  | registerUid uid =>
    obtain ⟨_, _, hs⟩ := registerUserId_frame env uid s
    rwa [hs]
  | deregisterUid uid =>
    obtain ⟨_, _, hs⟩ := deregisterUserId_frame uid s
    rwa [hs]
  | registerProg name =>
    obtain ⟨_, _, hs⟩ := registerProgName_frame env (strncpyFromUser name).terminate s
    rwa [hs]
  | deregisterProg name =>
    obtain ⟨_, _, hs⟩ := deregisterProgName_frame (strncpyFromUser name).terminate s
    rwa [hs]
  | setMax newMax => exact h.setMaxSyscall newMax
  | monitorOn => exact h.switchOnMonitor
  | monitorOff => exact h.switchOffMonitor

theorem run {s : State K} (h : s.mon.TimerStopped) (ops : List Op)
    : (Op.run s ops).mon.TimerStopped := by
  apply Op.run_invariant (P := fun s => s.mon.TimerStopped) h
  intro s op h
  cases op with
  | ioctl env euid cmd => exact h.effect (throttlingIoctl_effect euid cmd)
  | tick d => exact h
  | timer => exact h.runTimer

end Monitor.TimerStopped

namespace Module

theorem patchText_readText (text : Nat → UInt8) (dst : Nat) (inst : Inst)
    : patchText (patchText text dst inst) dst (readText text dst) = text := by
  funext a
  unfold patchText readText
  by_cases h : dst ≤ a ∧ a < dst + instLen
  . have hlt : a - dst < 5 := by
      unfold instLen at h
      omega
    have hadd : dst + (a - dst) = a := by omega
    rw [if_pos h]
    simp [List.getD, hlt, hadd]
  . rw [if_neg h, if_neg h]

theorem initSystemCallTable_cases (env : LoadEnv) (call : Nat) (m : Module K)
    : m.initSystemCallTable env call = (-1, m)
      ∨ ∃ addr, m.initSystemCallTable env call
        = (0, { m with
            text := patchText m.text addr (jumpTo call addr)
            originalInst := readText m.text addr
            jumpInst := jumpTo call addr
            x64SysCallAddr := addr }) := by
  unfold initSystemCallTable
  split
  . exact .inl rfl
  . split
    . exact .inl rfl
    . exact .inr ⟨_, rfl⟩

theorem initModule_success {env : LoadEnv} {call : Nat} {text : Nat → UInt8} {T : SyscallTable K}
    {stats : Ptr → SyscallStats} {now : Nat}
    (h : ((initial text T stats now).initModule env call).1 = 0)
    : let m := ((initial text T stats now).initModule env call).2
      m.text = patchText text m.x64SysCallAddr (jumpTo call m.x64SysCallAddr)
        ∧ m.originalInst = readText text m.x64SysCallAddr
        ∧ m.state = State.loaded K T stats now := by
  unfold initModule at h ⊢
  rcases initSystemCallTable_cases env call (initial text T stats now) with hi | ⟨addr, hi⟩
  . simp [hi] at h
  . rw [hi] at h ⊢
    dsimp only [initial] at h ⊢
    generalize Device.init env Device.none = d at h ⊢
    obtain ⟨ret, dev⟩ := d
    by_cases hret : ret = 0
    . subst hret
      exact ⟨rfl, rfl, rfl⟩
    . simp [hret] at h

def run (m : Module K) (ops : List Op) : Module K :=
  { m with state := Op.run m.state ops }

structure Restored (text : Nat → UInt8) (T : SyscallTable K) (m : Module K) : Prop where
  text : m.text = text
  table : m.state.sys.hackedSyscallTbl = T.entry
  unhooked : ∀ n, m.state.sys.hackedSyscallTbl n ≠ .throttlingWrapper
  timer : m.state.mon.epochTimer = none

theorem cleanupModule_table (m : Module K)
    : m.cleanupModule.state.sys.hackedSyscallTbl = m.state.sys.hackedSyscallTbl := rfl

/--
The code and the timer are always restored. The entries of the table are not: `cleanup_rcu` drops
the nodes that hold the original ones.
-/
theorem unload_restores_iff (env : LoadEnv) (call : Nat) (text : Nat → UInt8) (T : SyscallTable K)
    (stats : Ptr → SyscallStats) (now : Nat) (ops : List Op)
    (h : ((initial text T stats now).initModule env call).1 = 0)
    : let m := ((initial text T stats now).initModule env call).2.run ops
      Restored text T m.cleanupModule ↔ ∀ n, m.state.sys.syscallArray n = 0 := by
  intro m
  obtain ⟨htext, horig, hstate⟩ := initModule_success h
  have hrun : m.state = Op.run (State.loaded K T stats now) ops := by
    rw [← hstate]
    rfl
  have hsys : SyscallRegistry.Consistent T m.state.sys := by
    rw [hrun]
    exact (Op.invariant_run (.loaded T stats now) ops).sys
  have htimer : m.state.mon.TimerStopped := by
    rw [hrun]
    exact Monitor.TimerStopped.run (.loaded T stats now) ops
  constructor
  . -- `cleanup_rcu` drops the node of a hooked system call, with the entry it keeps
    intro hr n
    rcases hsys.settled n with ⟨_, _, htbl⟩ | ⟨_, harr, _⟩
    . exact absurd htbl (hr.unhooked n)
    . exact harr
  . intro hnone
    have htbl : m.cleanupModule.state.sys.hackedSyscallTbl = T.entry := by
      funext n
      rw [cleanupModule_table]
      rcases hsys.settled n with ⟨_, harr, _⟩ | ⟨_, _, htbl⟩
      . simp [hnone n] at harr
      . exact htbl
    refine ⟨?_, htbl, ?_, htimer.epochTimer_switchOffMonitor⟩
    . change patchText m.text m.x64SysCallAddr m.originalInst = text
      rw [show m.text = _ from htext, show m.originalInst = _ from horig]
      exact patchText_readText text _ _
    . intro n
      rw [htbl]
      exact T.original n

def sampleLoad (text : Nat → UInt8) : Int × Module Platform.sample :=
  (initial text SyscallTable.sample (fun _ => .zero) 0).initModule
    { tableFound := true
      kprobe := some 0x2000
      registerChrdev := 240
      classCreate := .ok ()
      deviceCreate := .ok () } 0x9000

theorem unload_restores_deregistered
    : let ops :=
      [.ioctl Env.sample 0 (.registerSyscall 83), .tick 7, .ioctl Env.sample 0 .monitorOff,
        .ioctl Env.sample 0 (.deregisterSyscall 83)]
      Restored (fun _ => 0x90) SyscallTable.sample
        ((sampleLoad fun _ => 0x90).2.run ops).cleanupModule := by
  intro ops
  refine (unload_restores_iff _ 0x9000 (fun _ => 0x90) SyscallTable.sample (fun _ => .zero) 0 ops
    (by decide)).mpr ?_
  intro n
  by_cases hn : n = ⟨83, by decide⟩
  . subst hn
    decide
  . exact (Function.update_of_ne hn _ _).trans (Function.update_of_ne hn _ _)

theorem unload_leaves_wrapper
    : let m := (sampleLoad fun _ => 0x90).2.run [.ioctl Env.sample 0 (.registerSyscall 83)]
      (sampleLoad fun _ => 0x90).1 = 0
        ∧ m.cleanupModule.state.sys.hackedSyscallTbl ⟨83, by decide⟩ = .throttlingWrapper
        ∧ ¬Restored (fun _ => 0x90) SyscallTable.sample m.cleanupModule := by
  intro m
  have hw : m.cleanupModule.state.sys.hackedSyscallTbl ⟨83, by decide⟩ = .throttlingWrapper := by
    decide
  exact ⟨by decide, hw, fun h => h.unhooked _ hw⟩

end Module

end Throttling

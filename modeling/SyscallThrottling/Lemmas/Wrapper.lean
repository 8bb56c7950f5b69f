import SyscallThrottling.Impl.System
import SyscallThrottling.Lemmas.Ioctl

/-!
This module contains what a step of `throttling_wrapper` can do to the shared state, and the log of
an invocation from its first step to its return.
-/

namespace Throttling

open Interleaving

variable {K : Platform}

def Event.owner : Event K → Option Nat
  | .sawMonitor i _ => some i
  | .checked i _ => some i
  | .token i _ => some i
  | .sawOff i => some i
  | .executed i _ _ _ => some i
  | .interrupted i => some i
  | .returned i _ => some i
  | .maxRead _ => none
  | .sampled _ => none
  | .refill _ _ => none

namespace Wrapper

variable {T : Type} {i : Nat} {ch : Choice T} {s s' : Shared K} {w w' : Wrapper K}
  {ev : List (Event K)}

structure Frame (s s' : Shared K) : Prop where
  writeLock : s'.writeLock = s.writeLock
  handler : s'.handler = s.handler
  uids : s'.st.uids = s.st.uids
  progs : s'.st.progs = s.st.progs
  heap : s'.st.heap = s.st.heap
  sys : s'.st.sys = { s.st.sys with stats := s'.st.sys.stats }
  mon : s'.st.mon = { s.st.mon with
    currSyscalls := s'.st.mon.currSyscalls
    blockedThread := s'.st.mon.blockedThread
    throttWq := s'.st.mon.throttWq }

/-- A step takes one token that is there and logs it, or leaves the tokens alone. -/
def Charges (i : Nat) (s s' : Shared K) (ev : List (Event K)) : Prop :=
  (s'.st.mon.currSyscalls = s.st.mon.currSyscalls ∧ ∀ j t, .token j t ∉ ev)
    ∨ (0 < s.st.mon.currSyscalls ∧ s'.st.mon.currSyscalls = s.st.mon.currSyscalls - 1
      ∧ ev = [.token i s.st.mon.jiffies])

@[simp]
theorem regs_goto (pc : WrapperPc) : (w.goto pc).regs = w.regs := rfl

@[simp]
theorem regs_tail : w.tail.regs = w.regs := by
  unfold tail
  split <;> rfl

@[simp]
theorem toCall_tail : w.tail.toCall = w.toCall := by
  unfold tail
  split <;> rfl

theorem pc_tail : w.tail.pc = .statLookup ∨ w.tail.pc = .callOriginal := by
  unfold tail
  split
  . exact .inl rfl
  . exact .inr rfl

theorem step_spec (h : w.step i ch s = some (s', w', ev))
    : Frame s s' ∧ Charges i s s' ev ∧ w'.regs = w.regs := by
  unfold step at h
  repeat' split at h
  all_goals
    first
    | contradiction
    | (cases h
       refine ⟨⟨rfl, rfl, rfl, rfl, rfl, rfl, rfl⟩, ?_, by simp⟩
       first
       | exact .inl ⟨rfl, by simp⟩
       | exact .inr ⟨by assumption, rfl, rfl⟩)

theorem owner_of_mem (h : w.step i ch s = some (s', w', ev)) : ∀ x ∈ ev, x.owner = some i := by
  unfold step at h
  repeat' split at h
  all_goals
    first
    | contradiction
    | (cases h
       simp [Event.owner])

inductive Passed (i : Nat) (w : Wrapper K) : List (Event K) → Prop where
  | off : w.toCall = none → Passed i w [.sawMonitor i false]
  | unmonitored : Passed i w [.checked i false, .sawMonitor i true]
  | token (t : Nat) : Passed i w [.token i t, .checked i true, .sawMonitor i true]
  | released : Passed i w [.sawOff i, .checked i true, .sawMonitor i true]

inductive Finished (i : Nat) (w : Wrapper K) (ret : Int) : List (Event K) → Prop where
  | direct (h : Handler) : Finished i w ret [.returned i ret, .executed i h w.regs ret]
  | called {L : List (Event K)} (h : Handler)
    : w.toCall = some h → Passed i w L →
      Finished i w ret (.returned i ret :: .executed i h w.regs ret :: L)
  | notFound {L : List (Event K)}
    : w.toCall = none → Passed i w L → ret = -ENOSYS → Finished i w ret (.returned i ret :: L)
  | interrupted
    : ret = -EINTR → Finished i w ret
        [.returned i ret, .interrupted i, .checked i true, .sawMonitor i true]

def Logged (i : Nat) (w : Wrapper K) (L : List (Event K)) : Prop :=
  match w.pc with
  | .dispatch => L = [] ∧ w.toCall = none
  | .direct _ => L = []
  | .entry => L = [] ∧ w.toCall = none
  | .checkUid => L = [.sawMonitor i true]
  | .checkProg => L = [.sawMonitor i true]
  | .lookup => L = [.checked i w.needMon, .sawMonitor i true]
  | .statLookup => Passed i w L
  | .statCompare _ => Passed i w L
  | .statUpdate _ => Passed i w L
  | .callOriginal => Passed i w L
  | .done ret => Finished i w ret L
  | _ => L = [.checked i true, .sawMonitor i true]

theorem Logged.shape {L : List (Event K)} (h : Logged i w L)
    : L = [] ∨ L = [.sawMonitor i true] ∨ (∃ b, L = [.checked i b, .sawMonitor i true])
      ∨ Passed i w L ∨ ∃ ret, Finished i w ret L := by
  unfold Logged at h
  split at h
  case h_1 => exact .inl h.1
  case h_2 => exact .inl h
  case h_3 => exact .inl h.1
  case h_4 => exact .inr (.inl h)
  case h_5 => exact .inr (.inl h)
  case h_6 => exact .inr (.inr (.inl ⟨_, h⟩))
  case h_7 => exact .inr (.inr (.inr (.inl h)))
  case h_8 => exact .inr (.inr (.inr (.inl h)))
  case h_9 => exact .inr (.inr (.inr (.inl h)))
  case h_10 => exact .inr (.inr (.inr (.inl h)))
  case h_11 => exact .inr (.inr (.inr (.inr ⟨_, h⟩)))
  case h_12 => exact .inr (.inr (.inl ⟨_, h⟩))

theorem Passed.of_toCall {L : List (Event K)} (h : Passed i w L) (hw : w'.toCall = w.toCall)
    : Passed i w' L := by
  cases h with
  | off hnone => exact .off (hw.trans hnone)
  | unmonitored => exact .unmonitored
  | token t => exact .token t
  | released => exact .released

theorem logged_goto {L : List (Event K)} {pc : WrapperPc} (h : Passed i w L)
    (hpc : pc = .statLookup ∨ pc = .callOriginal ∨ (∃ p, pc = .statCompare p)
      ∨ ∃ p, pc = .statUpdate p) : Logged i (w.goto pc) L := by
  rcases hpc with rfl | rfl | ⟨p, rfl⟩ | ⟨p, rfl⟩ <;> exact h.of_toCall rfl

theorem logged_tail {L : List (Event K)} (h : Passed i w L) : Logged i w.tail L := by
  unfold tail
  split
  . exact logged_goto h (.inl rfl)
  . exact logged_goto h (.inr (.inl rfl))

theorem logged_initial (regs : PtRegs K) (euid : UInt32) (comm : Comm)
    : Logged i (.initial regs euid comm) [] :=
  ⟨rfl, rfl⟩

theorem logged_step {L : List (Event K)} (hL : Logged i w L)
    (h : w.step i ch s = some (s', w', ev)) : Logged i w' (ev ++ L) := by
  unfold Logged at hL
  unfold step at h
  split at h
  . -- dispatch
    next hpc =>
    rw [hpc] at hL
    split at h
    . cases h
      exact hL
    . cases h
      exact hL.1
  . -- direct
    next hd ret hpc =>
    rw [hpc] at hL
    cases h
    dsimp only at hL
    subst hL
    exact .direct hd
  . -- entry
    next hpc =>
    rw [hpc] at hL
    obtain ⟨rfl, hnone⟩ := hL
    split at h
    . cases h
      exact logged_tail (.off hnone)
    . cases h
      rfl
  . -- checkUid
    next hpc =>
    rw [hpc] at hL
    dsimp only at hL
    subst hL
    split at h <;> cases h <;> rfl
  . -- checkProg
    next hpc =>
    rw [hpc] at hL
    dsimp only at hL
    subst hL
    cases h
    rfl
  . -- lookup
    next hpc =>
    rw [hpc] at hL
    dsimp only at hL
    subst hL
    split at h
    . next hneed =>
      cases h
      rw [hneed]
      exact logged_tail .unmonitored
    . next hneed =>
      cases h
      rw [Bool.not_eq_false] at hneed
      rw [hneed]
      rfl
  . -- takeToken
    next hpc =>
    rw [hpc] at hL
    dsimp only at hL
    subst hL
    split at h
    . cases h
      exact logged_tail (.token _)
    . cases h
      rfl
  . -- recheck
    next hpc =>
    rw [hpc] at hL
    dsimp only at hL
    subst hL
    split at h
    . cases h
      exact logged_tail .released
    . cases h
      rfl
  . -- incBlocked
    next hpc =>
    rw [hpc] at hL
    dsimp only at hL
    subst hL
    cases h
    rfl
  . -- startWait
    next hpc =>
    rw [hpc] at hL
    dsimp only at hL
    subst hL
    cases h
    rfl
  . -- enqueue
    next hpc =>
    rw [hpc] at hL
    dsimp only at hL
    subst hL
    cases h
    rfl
  . -- testMonitor
    next hpc =>
    rw [hpc] at hL
    dsimp only at hL
    subst hL
    split at h <;> cases h <;> rfl
  . -- testTokens
    next hpc =>
    rw [hpc] at hL
    dsimp only at hL
    subst hL
    split at h <;> cases h <;> rfl
  . -- sleep
    next hpc =>
    rw [hpc] at hL
    dsimp only at hL
    subst hL
    split at h
    . contradiction
    . cases h
      rfl
  . -- sleep, signal
    next hpc =>
    rw [hpc] at hL
    dsimp only at hL
    subst hL
    cases h
    rfl
  . -- decBlocked
    next hpc =>
    rw [hpc] at hL
    dsimp only at hL
    subst hL
    split at h
    . cases h
      exact .interrupted rfl
    . cases h
      rfl
  . -- addDelay
    next hpc =>
    rw [hpc] at hL
    dsimp only at hL
    subst hL
    cases h
    rfl
  . -- statLookup
    next hpc =>
    rw [hpc] at hL
    split at h
    . cases h
      exact logged_goto hL (.inr (.inr (.inl ⟨_, rfl⟩)))
    . cases h
      exact logged_goto hL (.inr (.inl rfl))
  . -- statCompare
    next hpc =>
    rw [hpc] at hL
    split at h
    . cases h
      exact logged_goto hL (.inr (.inr (.inr ⟨_, rfl⟩)))
    . cases h
      exact logged_goto hL (.inr (.inl rfl))
  . -- statUpdate
    next hpc =>
    rw [hpc] at hL
    cases h
    exact logged_goto hL (.inr (.inl rfl))
  . -- callOriginal
    next hpc =>
    rw [hpc] at hL
    split at h
    . next hcall =>
      cases h
      exact .called _ hcall (hL.of_toCall rfl)
    . next hcall =>
      cases h
      exact .notFound hcall (hL.of_toCall rfl) rfl
    . contradiction
  . contradiction

end Wrapper

namespace Thread

variable {i : Nat} {ch : Choice (Task K)} {s s' : Shared K} {t t' : Thread K} {ev : List (Event K)}

theorem step_cases (h : t.step i ch s = some (s', t', ev))
    : (t = .idle ∧ ev = [] ∧ s' = s ∧ ∃ task, ch = .start task ∧ t' = task.thread)
      ∨ (∃ w w', t = .wrapper w ∧ t' = .wrapper w' ∧ w.step i ch s = some (s', w', ev))
      ∨ (∃ pc pc', t = .switchOn pc ∧ t' = .switchOn pc' ∧ pc.step s = some (s', pc') ∧ ev = [])
      ∨ (∃ pc pc', t = .switchOff pc ∧ t' = .switchOff pc' ∧ pc.step s = some (s', pc') ∧ ev = [])
      ∨ (∃ f f', t = .register f ∧ t' = .register f' ∧ f.step i s = some (s', f') ∧ ev = [])
      ∨ (∃ f f', t = .deregister f ∧ t' = .deregister f' ∧ f.step i s = some (s', f')
        ∧ ev = []) := by
  cases t with
  | idle =>
    left
    simp only [step] at h
    split at h
    . next task =>
      cases h
      exact ⟨rfl, rfl, rfl, task, rfl, rfl⟩
    . contradiction
  | wrapper w =>
    right; left
    simp only [step, Option.map_eq_some_iff] at h
    obtain ⟨⟨s₁, w₁, ev₁⟩, h, heq⟩ := h
    cases heq
    exact ⟨w, w₁, rfl, rfl, h⟩
  | switchOn pc =>
    right; right; left
    simp only [step, Option.map_eq_some_iff] at h
    obtain ⟨⟨s₁, pc₁⟩, h, heq⟩ := h
    cases heq
    exact ⟨pc, pc₁, rfl, rfl, h, rfl⟩
  | switchOff pc =>
    right; right; right; left
    simp only [step, Option.map_eq_some_iff] at h
    obtain ⟨⟨s₁, pc₁⟩, h, heq⟩ := h
    cases heq
    exact ⟨pc, pc₁, rfl, rfl, h, rfl⟩
  | register f =>
    right; right; right; right; left
    simp only [step, Option.map_eq_some_iff] at h
    obtain ⟨⟨s₁, f₁⟩, h, heq⟩ := h
    cases heq
    exact ⟨f, f₁, rfl, rfl, h, rfl⟩
  | deregister f =>
    right; right; right; right; right
    simp only [step, Option.map_eq_some_iff] at h
    obtain ⟨⟨s₁, f₁⟩, h, heq⟩ := h
    cases heq
    exact ⟨f, f₁, rfl, rfl, h, rfl⟩

def Logged (i : Nat) (L : List (Event K)) : Thread K → Prop
  | .wrapper w => w.Logged i L
  | _ => L = []

theorem logged_step {L : List (Event K)} (hL : t.Logged i L)
    (h : t.step i ch s = some (s', t', ev)) : t'.Logged i (ev ++ L) := by
  rcases step_cases h with ⟨rfl, rfl, _, task, _, rfl⟩ | ⟨w, w', rfl, rfl, hw⟩
    | ⟨_, _, rfl, rfl, _, rfl⟩
    | ⟨_, _, rfl, rfl, _, rfl⟩ | ⟨_, _, rfl, rfl, _, rfl⟩ | ⟨_, _, rfl, rfl, _, rfl⟩
  . cases task with
    | syscall regs euid comm =>
      rw [show L = [] from hL]
      exact Wrapper.logged_initial (i := i) regs euid comm
    | _ => exact hL
  . exact Wrapper.logged_step hL hw
  all_goals exact hL

end Thread

theorem Monitor.setPeakBlocked_eq (m : Monitor) (currBlocked : UInt64)
    : ∃ peak, m.setPeakBlocked currBlocked
        = { m with infoThreads := { m.infoThreads with peakBlocked := peak } } := by
  -- the proofs need what the update leaves alone, never the new peak
  unfold setPeakBlocked
  exact ⟨_, rfl⟩

theorem HandlerPc.owner_of_mem {s : Shared K} {pc : HandlerPc} {x : Event K}
    (h : x ∈ (pc.step s).2) : x.owner = none := by
  cases pc <;> simp only [step] at h
  case check => split at h <;> simp at h
  case readPeak => split at h <;> simp at h
  all_goals
    simp only [List.mem_singleton, List.not_mem_nil] at h
    try subst h
    try rfl

theorem Shared.eq_of_locked {s s' : Shared K} {st : State K} {ev : List (Event K)}
    (h : s.locked st = some (s', ev)) : s.writeLock = none ∧ s' = { s with st } ∧ ev = [] := by
  unfold locked at h
  split at h
  . next hfree =>
    cases h
    exact ⟨hfree, rfl, rfl⟩
  . contradiction

theorem Shared.envStep_cases {s s' : Shared K} {e : EnvStep} {ev : List (Event K)}
    (h : s.envStep e = some (s', ev))
    : (∃ d, s' = s.setMon { s.st.mon with jiffies := s.st.mon.jiffies + d } ∧ ev = [])
      ∨ (∃ expires, s.st.mon.epochTimer = some expires ∧ s.handler = none
        ∧ expires ≤ s.st.mon.jiffies
        ∧ s' = (s.setMon { s.st.mon with epochTimer := none }).setHandler (some .check) ∧ ev = [])
      ∨ (∃ pc, s.handler = some pc ∧ pc.step s = (s', ev))
      ∨ (∃ newMax, s' = s.setMon (s.st.mon.setMaxSyscall newMax).2 ∧ ev = [])
      ∨ (∃ uids progs heap, s.writeLock = none
        ∧ s' = { s with st := { s.st with uids, progs, heap } } ∧ ev = []) := by
  cases e with
  | tick d =>
    cases h
    exact .inl ⟨d, rfl, rfl⟩
  | expire =>
    simp only [envStep] at h
    split at h
    . next expires htimer hhandler =>
      split at h
      . next hle =>
        cases h
        exact .inr (.inl ⟨expires, htimer, hhandler, hle, rfl, rfl⟩)
      . contradiction
    . contradiction
  | handler =>
    simp only [envStep, Option.map_eq_some_iff] at h
    exact .inr (.inr (.inl h))
  | setMax newMax =>
    cases h
    exact .inr (.inr (.inr (.inl ⟨newMax, rfl, rfl⟩)))
  | registerUid env uid =>
    obtain ⟨hfree, rfl, rfl⟩ := eq_of_locked h
    obtain ⟨uids, heap, heq⟩ := registerUserId_frame env uid s.st
    exact .inr (.inr (.inr (.inr ⟨uids, s.st.progs, heap, hfree, by rw [heq], rfl⟩)))
  | deregisterUid uid =>
    obtain ⟨hfree, rfl, rfl⟩ := eq_of_locked h
    obtain ⟨uids, heap, heq⟩ := deregisterUserId_frame uid s.st
    exact .inr (.inr (.inr (.inr ⟨uids, s.st.progs, heap, hfree, by rw [heq], rfl⟩)))
  | registerProg env name =>
    obtain ⟨hfree, rfl, rfl⟩ := eq_of_locked h
    obtain ⟨progs, heap, heq⟩ := registerProgName_frame env name s.st
    exact .inr (.inr (.inr (.inr ⟨s.st.uids, progs, heap, hfree, by rw [heq], rfl⟩)))
  | deregisterProg name =>
    obtain ⟨hfree, rfl, rfl⟩ := eq_of_locked h
    obtain ⟨progs, heap, heq⟩ := deregisterProgName_frame name s.st
    exact .inr (.inr (.inr (.inr ⟨s.st.uids, progs, heap, hfree, by rw [heq], rfl⟩)))

structure HandlerPc.Frame (s s' : Shared K) : Prop where
  writeLock : s'.writeLock = s.writeLock
  sections : s'.sections = s.sections
  st : s'.st = { s.st with mon := s'.st.mon }
  mon : s'.st.mon = { s.st.mon with
    currSyscalls := s'.st.mon.currSyscalls
    exponential := s'.st.mon.exponential
    infoThreads := { s.st.mon.infoThreads with
      sumBlocked := s'.st.mon.infoThreads.sumBlocked
      peakBlocked := s'.st.mon.infoThreads.peakBlocked }
    epochTimer := s'.st.mon.epochTimer
    throttWq := s'.st.mon.throttWq }

theorem HandlerPc.step_frame {s s' : Shared K} {pc : HandlerPc} {ev : List (Event K)}
    (h : pc.step s = (s', ev)) : Frame s s' := by
  cases pc with
  | check =>
    simp only [step] at h
    split at h <;> cases h <;> exact ⟨rfl, rfl, rfl, rfl⟩
  | readPeak max currBlocked =>
    simp only [step] at h
    split at h <;> cases h <;> exact ⟨rfl, rfl, rfl, rfl⟩
  | setPeak max currBlocked =>
    obtain ⟨peak, hpeak⟩ := s.st.mon.setPeakBlocked_eq currBlocked
    rw [step, hpeak] at h
    cases h
    exact ⟨rfl, rfl, rfl, rfl⟩
  | _ =>
    cases h
    exact ⟨rfl, rfl, rfl, rfl⟩

theorem Shared.envStep_sys {s s' : Shared K} {e : EnvStep} {ev : List (Event K)}
    (h : s.envStep e = some (s', ev)) : s'.writeLock = s.writeLock ∧ s'.st.sys = s.st.sys := by
  rcases envStep_cases h with ⟨_, rfl, _⟩ | ⟨_, _, _, _, rfl, _⟩ | ⟨pc, _, h⟩ | ⟨_, rfl, _⟩
    | ⟨_, _, _, _, rfl, _⟩
  . exact ⟨rfl, rfl⟩
  . exact ⟨rfl, rfl⟩
  . exact ⟨(HandlerPc.step_frame h).writeLock, by rw [(HandlerPc.step_frame h).st]⟩
  . exact ⟨rfl, rfl⟩
  . exact ⟨rfl, rfl⟩

theorem Shared.envStep_log {s s' : Shared K} {e : EnvStep} {ev : List (Event K)}
    (h : s.envStep e = some (s', ev))
    : ev = [] ∨ ∃ pc, s.handler = some pc ∧ pc.step s = (s', ev) := by
  rcases envStep_cases h with ⟨_, _, rfl⟩ | ⟨_, _, _, _, _, rfl⟩ | hpc | ⟨_, _, rfl⟩
    | ⟨_, _, _, _, _, rfl⟩
  . exact .inl rfl
  . exact .inl rfl
  . exact .inr hpc
  . exact .inl rfl
  . exact .inl rfl

theorem Shared.owner_of_mem {s s' : Shared K} {e : EnvStep} {ev : List (Event K)}
    (h : s.envStep e = some (s', ev)) : ∀ x ∈ ev, x.owner = none := by
  rcases envStep_log h with rfl | ⟨pc, _, h⟩
  . simp
  . intro x hx
    apply HandlerPc.owner_of_mem
    rw [h]
    exact hx

theorem attributed : System.Attributed (throttling K) Event.owner where
  env h := Shared.owner_of_mem h
  thread h := by
    rcases Thread.step_cases h with ⟨_, rfl, _⟩ | ⟨w, w', _, _, h⟩ | ⟨_, _, _, _, _, rfl⟩
      | ⟨_, _, _, _, _, rfl⟩ | ⟨_, _, _, _, _, rfl⟩ | ⟨_, _, _, _, _, rfl⟩
    . simp
    . exact Wrapper.owner_of_mem h
    all_goals simp

def Cfg.own (c : Cfg K) (i : Nat) : List (Event K) :=
  System.own Event.owner i c.trace

theorem Cfg.mem_own {c : Cfg K} {i : Nat} {x : Event K}
    : x ∈ c.own i ↔ x ∈ c.trace ∧ x.owner = some i :=
  System.mem_own

theorem logged_of_reachable {T : SyscallTable K} {c : Cfg K} (h : Reachable K T c) (i : Nat)
    : (c.locals i).Logged i (c.own i) := by
  obtain ⟨stats, now, h⟩ := h
  refine System.Run.local_invariant (P := fun t L => Thread.Logged i L t) attributed h rfl ?_
  intro c ch s t ev hL _ hs
  exact Thread.logged_step hL hs

section Call

variable {T : SyscallTable K} {c c' : Cfg K} {i : Nat} {w : Wrapper K}

theorem Thread.step_wrapper {ch : Choice (Task K)} {s s' : Shared K} {t' : Thread K}
    {ev : List (Event K)} (h : (Thread.wrapper w).step i ch s = some (s', t', ev))
    : ∃ w', t' = .wrapper w' ∧ w.step i ch s = some (s', w', ev) := by
  simp only [Thread.step, Option.map_eq_some_iff] at h
  obtain ⟨⟨s₁, w₁, ev₁⟩, h, heq⟩ := h
  cases heq
  exact ⟨w₁, rfl, h⟩

theorem logged_wrapper (h : Reachable K T c) (hw : c.locals i = .wrapper w)
    : w.Logged i (c.own i) := by
  have hL := logged_of_reachable h i
  rw [hw] at hL
  exact hL

theorem Reachable.step {l : Lbl K} (h : Reachable K T c) (hs : (throttling K).step c l = some c')
    : Reachable K T c' :=
  reachable_trans h (.tail l .refl trivial hs)

theorem wrapper_of_run {G : Cfg K → Lbl K → Prop} (h : (throttling K).Run G c c')
    (hw : c.locals i = .wrapper w) : ∃ w', c'.locals i = .wrapper w' ∧ w'.regs = w.regs := by
  refine System.Run.local_invariant (P := fun t _ => ∃ w', t = .wrapper w' ∧ w'.regs = w.regs)
    attributed h ⟨w, hw, rfl⟩ ?_
  intro c ch s t ev hP _ hs
  obtain ⟨w', hw', hregs⟩ := hP
  rw [hw'] at hs
  obtain ⟨w'', rfl, h⟩ := Thread.step_wrapper hs
  exact ⟨w'', rfl, (Wrapper.step_spec h).2.2.trans hregs⟩

end Call

end Throttling

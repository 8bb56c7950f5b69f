import SyscallThrottling.Lemmas.Wrapper

/-!
This module contains what the steps of the other calls leave unchanged, and what the steps of all
threads do.
-/

namespace Throttling

variable {K : Platform} {i : Nat} {s s' : Shared K}

/-- What the calls that switch the monitor leave alone. -/
structure SwitchFrame (s s' : Shared K) : Prop where
  shared : s' = s.setMon s'.st.mon
  mon : s'.st.mon = { s.st.mon with
    isMonitorActive := s'.st.mon.isMonitorActive
    infoThreads := { s.st.mon.infoThreads with
      startTime := s'.st.mon.infoThreads.startTime
      elapsed := s'.st.mon.infoThreads.elapsed }
    epochTimer := s'.st.mon.epochTimer
    throttWq := s'.st.mon.throttWq }

theorem SwitchOnPc.step_frame {pc pc' : SwitchOnPc} (h : pc.step s = some (s', pc'))
    : SwitchFrame s s' := by
  unfold step at h
  repeat' split at h
  all_goals
    cases h
    try exact ⟨rfl, rfl⟩

theorem SwitchOffPc.step_frame {pc pc' : SwitchOffPc} (h : pc.step s = some (s', pc'))
    : SwitchFrame s s' := by
  unfold step at h
  repeat' split at h
  all_goals
    cases h
    try exact ⟨rfl, rfl⟩

/-- What the calls that update the syscall table leave alone. -/
structure UpdateFrame (s s' : Shared K) : Prop where
  handler : s'.handler = s.handler
  sections : s'.sections = s.sections
  uids : s'.st.uids = s.st.uids
  progs : s'.st.progs = s.st.progs
  mon : s'.st.mon = s.st.mon

theorem Register.step_frame {f f' : Register K} (h : f.step i s = some (s', f'))
    : UpdateFrame s s' ∧ f'.safeNr = f.safeNr := by
  unfold step at h
  repeat' split at h
  all_goals
    cases h
    try exact ⟨⟨rfl, rfl, rfl, rfl, rfl⟩, rfl⟩

theorem Deregister.step_frame {f f' : Deregister K} (h : f.step i s = some (s', f'))
    : UpdateFrame s s' ∧ f'.safeNr = f.safeNr := by
  unfold step at h
  repeat' split at h
  all_goals
    cases h
    try exact ⟨⟨rfl, rfl, rfl, rfl, rfl⟩, rfl⟩

/-- What every thread leaves to the clock, to the timer and to `set_max_syscall`. -/
structure Thread.Frame (s s' : Shared K) : Prop where
  handler : s'.handler = s.handler
  mon : s'.st.mon = { s.st.mon with
    isMonitorActive := s'.st.mon.isMonitorActive
    currSyscalls := s'.st.mon.currSyscalls
    blockedThread := s'.st.mon.blockedThread
    infoThreads := { s.st.mon.infoThreads with
      startTime := s'.st.mon.infoThreads.startTime
      elapsed := s'.st.mon.infoThreads.elapsed }
    epochTimer := s'.st.mon.epochTimer
    throttWq := s'.st.mon.throttWq }

theorem SwitchFrame.thread (h : SwitchFrame s s') : Thread.Frame s s' where
  handler := by
    rw [h.shared]
    rfl
  mon := by
    rw [h.mon]

theorem UpdateFrame.thread (h : UpdateFrame s s') : Thread.Frame s s' where
  handler := h.handler
  mon := by
    rw [h.mon]

theorem Thread.step_frame {ch : Choice (Task K)} {t t' : Thread K} {ev : List (Event K)}
    (h : t.step i ch s = some (s', t', ev)) : Frame s s' := by
  rcases step_cases h with ⟨_, _, rfl, _⟩ | ⟨w, w', _, _, h⟩ | ⟨_, _, _, _, h, _⟩
    | ⟨_, _, _, _, h, _⟩ | ⟨_, _, _, _, h, _⟩ | ⟨_, _, _, _, h, _⟩
  . exact ⟨rfl, rfl⟩
  . have hframe := (Wrapper.step_spec h).1
    exact ⟨hframe.handler, by rw [hframe.mon]⟩
  . exact (SwitchOnPc.step_frame h).thread
  . exact (SwitchOffPc.step_frame h).thread
  . exact (Register.step_frame h).1.thread
  . exact (Deregister.step_frame h).1.thread

theorem Thread.step_clock {ch : Choice (Task K)} {t t' : Thread K} {ev : List (Event K)}
    (h : t.step i ch s = some (s', t', ev)) : s'.st.mon.jiffies = s.st.mon.jiffies := by
  rw [(step_frame h).mon]

theorem Thread.step_max {ch : Choice (Task K)} {t t' : Thread K} {ev : List (Event K)}
    (h : t.step i ch s = some (s', t', ev))
    : s'.st.mon.maxSyscallsPerSec = s.st.mon.maxSyscallsPerSec := by
  rw [(step_frame h).mon]

end Throttling

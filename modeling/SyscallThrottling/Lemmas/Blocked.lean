import SyscallThrottling.Lemmas.Tokens
import SyscallThrottling.Lib.Census

/-!
This module contains the count of the blocked invocations: `blocked_thread` is the number of those
that are between their increment and their decrement, in any interleaving of the steps.
-/

namespace Throttling

open Interleaving

variable {K : Platform}

def WrapperPc.blocked : WrapperPc → Bool
  | .startWait => true
  | .enqueue => true
  | .testMonitor => true
  | .testTokens => true
  | .sleep => true
  | .decBlocked _ => true
  | _ => false

def Thread.blocked : Thread K → Prop
  | .wrapper w => w.pc.blocked = true
  | _ => False

theorem Thread.wrapper_of_blocked {t : Thread K} (h : t.blocked)
    : ∃ w, t = .wrapper w ∧ w.pc.blocked = true := by
  cases t with
  | wrapper w => exact ⟨w, rfl, h⟩
  | _ => cases h

namespace Wrapper

variable {T : Type} {i : Nat} {ch : Choice T} {s s' : Shared K} {w w' : Wrapper K}
  {ev : List (Event K)}

theorem blocked_tail : w.tail.pc.blocked = false := by
  rcases w.pc_tail with h | h <;> rw [h] <;> rfl

theorem step_blocked (h : w.step i ch s = some (s', w', ev))
    : (w'.pc.blocked = w.pc.blocked ∧ s'.st.mon.blockedThread = s.st.mon.blockedThread)
      ∨ (w.pc.blocked = false ∧ w'.pc.blocked = true
        ∧ s'.st.mon.blockedThread = s.st.mon.blockedThread + 1)
      ∨ (w.pc.blocked = true ∧ w'.pc.blocked = false
        ∧ s'.st.mon.blockedThread = s.st.mon.blockedThread - 1) := by
  unfold step at h
  split at h
  case h_9 hpc =>
    -- incBlocked
    cases h
    exact .inr (.inl ⟨by rw [hpc]; rfl, rfl, rfl⟩)
  case h_16 waitRet hpc =>
    -- decBlocked
    split at h <;> cases h <;> exact .inr (.inr ⟨by rw [hpc]; rfl, rfl, rfl⟩)
  -- all other steps stay on their side
  all_goals
    repeat' split at h
    all_goals
      first
      | contradiction
      | (cases h
         refine .inl ⟨?_, rfl⟩
         first
         | (rw [blocked_tail]
            simp [*, WrapperPc.blocked])
         | simp [*, WrapperPc.blocked, goto])

end Wrapper

theorem Shared.envStep_blockedThread {s s' : Shared K} {e : EnvStep} {ev : List (Event K)}
    (h : s.envStep e = some (s', ev)) : s'.st.mon.blockedThread = s.st.mon.blockedThread := by
  rcases envStep_cases h with ⟨_, rfl, _⟩ | ⟨_, _, _, _, rfl, _⟩ | ⟨pc, _, h⟩ | ⟨newMax, rfl, _⟩
    | ⟨_, _, _, _, rfl, _⟩
  . rfl
  . rfl
  . rw [(HandlerPc.step_frame h).mon]
  . unfold Monitor.setMaxSyscall
    split <;> rfl
  . rfl

structure Monitor.SameStats (m m' : Monitor) : Prop where
  sumBlocked : m'.infoThreads.sumBlocked = m.infoThreads.sumBlocked
  peakBlocked : m'.infoThreads.peakBlocked = m.infoThreads.peakBlocked
  exponential : m'.exponential = m.exponential

theorem Thread.step_stats {s s' : Shared K} {t t' : Thread K} {i : Nat} {ch : Choice (Task K)}
    {ev : List (Event K)} (hs : t.step i ch s = some (s', t', ev))
    : s.st.mon.SameStats s'.st.mon ∧ s'.handler = s.handler := by
  have hframe := step_frame hs
  refine ⟨?_, hframe.handler⟩
  rw [hframe.mon]
  exact ⟨rfl, rfl, rfl⟩

theorem counts_blocked
    : Counts (throttling K) Thread.blocked (fun s => s.st.mon.blockedThread) where
  env h := Shared.envStep_blockedThread h
  thread h := by
    rcases Thread.step_cases h with ⟨rfl, _, rfl, task, _, rfl⟩ | ⟨w, w', rfl, rfl, h'⟩
      | ⟨pc, pc', rfl, rfl, h', _⟩ | ⟨pc, pc', rfl, rfl, h', _⟩ | ⟨f, f', rfl, rfl, h', _⟩
      | ⟨f, f', rfl, rfl, h', _⟩
    . refine .inl ⟨?_, rfl⟩
      cases task <;> simp [Task.thread, Thread.blocked, Wrapper.initial, WrapperPc.blocked]
    . simpa [Thread.blocked] using Wrapper.step_blocked h'
    . exact .inl ⟨Iff.rfl, by rw [(SwitchOnPc.step_frame h').mon]⟩
    . exact .inl ⟨Iff.rfl, by rw [(SwitchOffPc.step_frame h').mon]⟩
    . exact .inl ⟨Iff.rfl, by rw [(Register.step_frame h').1.mon]⟩
    . exact .inl ⟨Iff.rfl, by rw [(Deregister.step_frame h').1.mon]⟩

theorem census_loaded (T : SyscallTable K) (stats : Ptr → SyscallStats) (now : Nat)
    : Census Thread.blocked (fun s => s.st.mon.blockedThread) (loaded K T stats now) :=
  .initial rfl fun _ => id

theorem census_of_reachable {T : SyscallTable K} {c : Cfg K} (h : Reachable K T c)
    : Census Thread.blocked (fun s => s.st.mon.blockedThread) c := by
  obtain ⟨stats, now, h⟩ := h
  exact Census.run counts_blocked (census_loaded T stats now) h

end Throttling

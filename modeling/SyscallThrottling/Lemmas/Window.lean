import SyscallThrottling.Lemmas.Tokens

/-!
This module contains the number of tokens that are taken in a window of one second, wherever the
window lies.
-/

namespace Throttling

open Interleaving EpochLimiter

variable {K : Platform}

def Steady (max : Int) (c : Cfg K) : Prop :=
  c.shared.st.mon.isMonitorActive = 1 ∧ c.shared.st.mon.maxSyscallsPerSec = max
    ∧ (tokenLog c.trace).value 3 = max

instance (max : Int) (c : Cfg K) : Decidable (Steady max c) :=
  inferInstanceAs (Decidable (_ ∧ _ ∧ _))

theorem HandlerPc.eq_of_refill_mem {s : Shared K} {pc : HandlerPc} {v : Int} {t : Nat}
    (h : .refill v t ∈ (pc.step s).2) : (pc.step s).2 = [.refill v t] := by
  cases pc <;> simp only [step] at h ⊢
  case check => split at h <;> simp at h
  case readPeak => split at h <;> simp at h
  all_goals simp_all

theorem eq_of_refill_mem {c c' : Cfg K} {l : Lbl K} (hs : (throttling K).step c l = some c')
    : ∃ ev, c'.trace = ev ++ c.trace ∧ ∀ v t, .refill v t ∈ ev → ev = [.refill v t] := by
  cases l with
  | env e =>
    obtain ⟨s, ev, heq, rfl⟩ := System.step_env hs
    refine ⟨ev, rfl, ?_⟩
    intro v t hmem
    rcases Shared.envStep_log heq with rfl | ⟨pc, _, heq⟩
    . simp at hmem
    . have hev : (pc.step c.shared).2 = ev := by rw [heq]
      rw [← hev] at hmem ⊢
      exact HandlerPc.eq_of_refill_mem hmem
  | run i ch =>
    obtain ⟨s, t, ev, heq, rfl⟩ := System.step_run hs
    refine ⟨ev, rfl, ?_⟩
    intro v t hmem
    have := attributed.thread heq _ hmem
    cases this

section Run

variable {max : Int} {c₀ c : Cfg K}

theorem steady_head (h : (throttling K).Run (fun c _ => Steady max c) c₀ c) (hlast : Steady max c)
    : Steady max c₀ := by
  induction h with
  | refl => exact hlast
  | tail l _ hg _ ih => exact ih hg

theorem refill_of_steady (h : (throttling K).Run (fun c _ => Steady max c) c₀ c)
    (hlast : Steady max c)
    : ∃ seg, c.trace = seg ++ c₀.trace ∧ ∀ v t, .refill v t ∈ seg → v = max := by
  induction h with
  | refl => exact ⟨[], rfl, by simp⟩
  | @tail c' c'' l _ hg hs ih =>
    obtain ⟨seg, hseg, hrefill⟩ := ih hg
    obtain ⟨ev, hev, hone⟩ := eq_of_refill_mem hs
    refine ⟨ev ++ seg, by rw [hev, hseg, List.append_assoc], ?_⟩
    intro v t hmem
    rcases List.mem_append.mp hmem with hmem | hmem
    . -- the limit a refill has stored is the last one read, which is steady behind the step
      have hvalue := hlast.2.2
      rw [hev, hone v t hmem] at hvalue
      exact hvalue
    . exact hrefill v t hmem

/--
A window may hold the tokens of two epochs: those that are left before a refill and those that the
refill puts there.
-/
theorem window_le {T : SyscallTable K} (hreach : Reachable K T c₀)
    (hrun : (throttling K).Run (fun c _ => Steady max c) c₀ c) (hlast : Steady max c)
    : ∃ seg, c.trace = seg ++ c₀.trace ∧ ∀ t,
      ((tokenLog seg).inWindow t K.HZ : Int) ≤ 2 * max
        ∧ ((∀ v t', .refill v t' ∈ seg → ¬(t ≤ t' ∧ t' < t + K.HZ)) →
          ((tokenLog seg).inWindow t K.HZ : Int) ≤ max) := by
  obtain ⟨seg, hseg, hrefill⟩ := refill_of_steady hrun hlast
  refine ⟨seg, hseg, fun t => ?_⟩
  have hacc := Accounts.of_reachable (reachable_trans hreach hrun.reaches)
  have hacc₀ := Accounts.of_reachable hreach
  obtain ⟨_, hmax, hvalue⟩ := steady_head hrun hlast
  have hpos := hacc₀.max_pos
  have hbalance := hacc₀.balance
  have hnonneg := hacc₀.nonneg
  have hvalid := hacc.valid
  rw [hseg, tokenLog, List.filterMap_append] at hvalid
  -- the segment starts with the tokens that are left in `c₀`
  have hsegment : (tokenLog seg).Valid c₀.shared.st.mon.currSyscalls K.HZ := by
    rw [hbalance]
    exact hvalid.of_append
  have hmem : ∀ v t', Entry.refill v t' ∈ tokenLog seg → .refill v t' ∈ seg := by
    intro v t' hmem
    obtain ⟨x, hx, hentry⟩ := List.mem_filterMap.mp hmem
    cases x <;> simp [Event.entry] at hentry
    rwa [hentry.1, hentry.2] at hx
  have hcapped : Log.Capped max.toNat (tokenLog seg) := by
    intro v t' hin
    have := hrefill v t' (hmem v t' hin)
    omega
  have hinit : c₀.shared.st.mon.currSyscalls ≤ max.toNat := by omega
  constructor
  . have := hsegment.inWindow_le hnonneg hinit hcapped t
    omega
  . intro hno
    have := hsegment.inWindow_le_of_no_refill (a := t) hnonneg hinit hcapped
      fun v t' hin => hno v t' (hmem v t' hin)
    omega

end Run

/--
Three calls get a token just before the first refill, and three more right behind it. Calls 4 to 6
are admitted one jiffy after calls 1 to 3.
-/
def burst : List (Lbl Platform.sample) :=
  sampleSetup ++ .env (.tick 249)
    :: (sampleCall 1 :: steps 1 5) ++ (sampleCall 2 :: steps 2 5) ++ (sampleCall 3 :: steps 3 5)
    ++ .env (.tick 1) :: .env .expire :: List.replicate 8 (.env .handler)
    ++ (sampleCall 4 :: steps 4 5) ++ (sampleCall 5 :: steps 5 5) ++ (sampleCall 6 :: steps 6 5)

theorem isSome_burst : (sampleRun (fun c _ => Steady 3 c) burst).isSome := by
  decide

theorem run_burst
    : (throttling Platform.sample).Run (fun c _ => Steady 3 c) sampleLoaded
        ((sampleRun (fun c _ => Steady 3 c) burst).get isSome_burst) :=
  (System.run_exec_get isSome_burst).mono (by simp)

theorem burst_exceeds_max
    : ∃ c, (throttling Platform.sample).Run (fun c _ => Steady 3 c) sampleLoaded c ∧ Steady 3 c
      ∧ (tokenLog c.trace).inWindow 249 Platform.sample.HZ = 6 :=
  ⟨_, run_burst, by decide, by decide⟩

theorem window_le_burst
    : ∃ c : Cfg Platform.sample, ∃ seg, c.trace = seg ++ sampleLoaded.trace ∧ ∀ t,
      ((tokenLog seg).inWindow t 250 : Int) ≤ 2 * 3
        ∧ ((∀ v t', .refill v t' ∈ seg → ¬(t ≤ t' ∧ t' < t + 250)) →
          ((tokenLog seg).inWindow t 250 : Int) ≤ 3) :=
  ⟨_, window_le (T := SyscallTable.sample) ⟨_, _, .refl⟩ run_burst (by decide)⟩

end Throttling

import SyscallThrottling.Lemmas.Lookup
import SyscallThrottling.Lemmas.Samples

/-!
This module contains the averages of the blocked threads along a run of the module: the exponential
mean, which is stored, and the arithmetic mean, which the interface computes.
-/

namespace Throttling

open Interleaving

variable {K : Platform}

/-- The run of the handler has read its sample and is not over. -/
def HandlerPc.counting : HandlerPc → Bool
  | .check => false
  | .readMax => false
  | .readBlocked _ => false
  | _ => true

def Counting (c : Cfg K) : Prop :=
  ∃ pc, c.shared.handler = some pc ∧ pc.counting = true

section Prefix

variable {c c' : Cfg K} {l : Lbl K}

theorem HandlerPc.step_counting {s s' : Shared K} {pc : HandlerPc} {ev : List (Event K)}
    (hs : pc.step s = (s', ev)) (hpc : pc.counting = true)
    : s'.handler = none ∨ ∃ pc', s'.handler = some pc' ∧ pc'.counting = true := by
  cases pc with
  | check => cases hpc
  | readMax => cases hpc
  | readBlocked max => cases hpc
  | readPeak max currBlocked =>
    simp only [step] at hs
    split at hs <;> cases hs <;> exact .inr ⟨_, rfl, rfl⟩
  | setPeak max currBlocked =>
    rw [step] at hs
    generalize s.st.mon.setPeakBlocked currBlocked = m at hs
    cases hs
    exact .inr ⟨_, rfl, rfl⟩
  | modTimer =>
    cases hs
    exact .inl rfl
  | _ =>
    cases hs
    exact .inr ⟨_, rfl, rfl⟩

theorem Counting.step (h : Counting c) (hs : (throttling K).step c l = some c')
    : c'.shared.handler = none ∨ Counting c' := by
  obtain ⟨pc, hpc, hcount⟩ := h
  cases l with
  | env e =>
    obtain ⟨s, ev, heq, rfl⟩ := System.step_env hs
    rcases Shared.envStep_cases heq with ⟨_, rfl, _⟩ | ⟨_, _, hidle, _⟩ | ⟨pc', hpc', heq⟩
      | ⟨_, rfl, _⟩ | ⟨_, _, _, _, rfl, _⟩
    . exact .inr ⟨pc, hpc, hcount⟩
    . rw [hpc] at hidle
      contradiction
    . rw [hpc, Option.some.injEq] at hpc'
      subst hpc'
      exact HandlerPc.step_counting heq hcount
    . exact .inr ⟨pc, hpc, hcount⟩
    . exact .inr ⟨pc, hpc, hcount⟩
  | run i ch =>
    obtain ⟨s, t, ev, heq, rfl⟩ := System.step_run hs
    exact .inr ⟨pc, (Thread.step_stats heq).2.trans hpc, hcount⟩

theorem ReadsBlocked.counting (h : ReadsBlocked c l) (hs : (throttling K).step c l = some c')
    : ¬Counting c ∧ Counting c' := by
  obtain ⟨rfl, max, hpc⟩ := h
  constructor
  . rintro ⟨pc, hpc', hcount⟩
    rw [hpc, Option.some.injEq] at hpc'
    subst hpc'
    cases hcount
  . obtain ⟨s, ev, heq, rfl⟩ := System.step_env hs
    obtain ⟨pc, hpc', hstep⟩ := Option.map_eq_some_iff.mp heq
    rw [hpc, Option.some.injEq] at hpc'
    subst hpc'
    cases hstep
    exact ⟨_, rfl, rfl⟩

/--
Whatever the handler has sampled so far, it was idle once with these samples. The induction needs
more than idle end states: while a sample is counted, only the samples before it qualify.
-/
theorem exists_idle_prefix {c₀ : Cfg K} (h0 : c₀.shared.handler = none)
    (hnil : samples c₀.trace = []) (h : (throttling K).Reaches c₀ c) {ys : List Nat}
    (hys : ys <+: samples c.trace) (hc : ¬Counting c ∨ ys ≠ samples c.trace)
    : ∃ c', (throttling K).Reaches c₀ c' ∧ (throttling K).Reaches c' c
      ∧ c'.shared.handler = none ∧ samples c'.trace = ys := by
  induction h with
  | refl =>
    rw [hnil, List.prefix_nil] at hys
    exact ⟨c₀, .refl, .refl, h0, hnil.trans hys.symm⟩
  | @tail c₁ c₂ l hrun hg hs ih =>
    have hextend : (∃ c', (throttling K).Reaches c₀ c' ∧ (throttling K).Reaches c' c₁
        ∧ c'.shared.handler = none ∧ samples c'.trace = ys)
        → ∃ c', (throttling K).Reaches c₀ c' ∧ (throttling K).Reaches c' c₂
          ∧ c'.shared.handler = none ∧ samples c'.trace = ys := by
      rintro ⟨c', hto, hfrom, hrest⟩
      exact ⟨c', hto, .tail l hfrom hg hs, hrest⟩
    rcases samples_step hs with ⟨hread, hxs⟩ | ⟨_, hxs⟩
    . obtain ⟨hbefore, hafter⟩ := hread.counting hs
      have hne : ys ≠ samples c₂.trace := hc.resolve_left fun hn => hn hafter
      rw [hxs] at hys hne
      have hpre := (List.prefix_concat_iff.mp hys).resolve_left hne
      exact hextend (ih hpre (.inl hbefore))
    . rw [hxs] at hys hc
      by_cases hcount : Counting c₁
      . by_cases heq : ys = samples c₁.trace
        . -- the run that counts the last sample is over
          have hidle := (hcount.step hs).resolve_right (hc.resolve_right fun hne => hne heq)
          exact ⟨c₂, .tail l hrun hg hs, .refl, hidle, hxs.trans heq.symm⟩
        . exact hextend (ih hys (.inr heq))
      . exact hextend (ih hys (.inl hcount))

end Prefix

/--
0 stands for a mean that has not started, so a mean that starts with samples of 0 starts again at
the first other one.
-/
theorem exponential_follows_iff {T : SyscallTable K} {stats : Ptr → SyscallStats} {now : Nat}
    {c : Cfg K} (h : (throttling K).Reaches (loaded K T stats now) c)
    (hidle : c.shared.handler = none) (hxs : ∀ x ∈ samples c.trace, x < 2 ^ 40)
    : (∀ c', (throttling K).Reaches (loaded K T stats now) c' → (throttling K).Reaches c' c →
          c'.shared.handler = none → samples c'.trace ≠ [] →
            Monitor.Follows c'.shared.st.mon.exponential (samples c'.trace))
        ↔ ((samples c.trace).head? ≠ some 0 ∨ ∀ x ∈ samples c.trace, x = 0) := by
  rw [← Monitor.follows_iff hxs]
  constructor
  . intro hfollows ys hys hne
    have hcount : ¬Counting c := by
      rintro ⟨pc, hpc, _⟩
      rw [hidle] at hpc
      contradiction
    obtain ⟨c', hto, hfrom, hidle', rfl⟩ := exists_idle_prefix rfl rfl h hys (.inl hcount)
    have hrec := Recording.of_reachable ⟨stats, now, hto⟩
    rw [hidle'] at hrec
    rw [← Monitor.Records.exponential hrec]
    exact hfollows c' hto hfrom hidle' hne
  . intro hfollows c' hto hfrom hidle' hne
    have hrec := Recording.of_reachable ⟨stats, now, hto⟩
    rw [hidle'] at hrec
    rw [Monitor.Records.exponential hrec]
    obtain ⟨seg, hseg⟩ := hfrom.trace_append
    refine hfollows _ ?_ hne
    rw [hseg, samples_append]
    exact List.prefix_append _ _

theorem exponential_follows_sampledThrice
    : samples afterThrice.trace = [1, 1, 0]
      ∧ Monitor.Follows afterThrice.shared.st.mon.exponential (samples afterThrice.trace) := by
  have hidle : afterThrice.shared.handler = none := by decide +kernel
  have hxs : ∀ x ∈ samples afterThrice.trace, x < 2 ^ 40 := by
    rw [samples_sampledThrice]
    decide
  refine ⟨samples_sampledThrice, ?_⟩
  apply (exponential_follows_iff (T := SyscallTable.sample) reaches_sampledThrice hidle hxs).mpr
  . rw [samples_sampledThrice]
    exact .inl (by decide)
  . exact reaches_sampledThrice
  . exact .refl
  . exact hidle
  . rw [samples_sampledThrice]
    decide

/-- Nobody is blocked when the first epoch ends, and one caller when the second does. -/
def sampledTwice : List (Lbl Platform.sample) :=
  sampleSetup ++ .env (.tick 250) :: .env .expire :: List.replicate 10 (.env .handler)
    ++ (sampleCall 1 :: steps 1 5) ++ (sampleCall 2 :: steps 2 5) ++ (sampleCall 3 :: steps 3 5)
    ++ (sampleCall 4 :: steps 4 11)
    ++ .env (.tick 250) :: .env .expire :: List.replicate 11 (.env .handler)

theorem isSome_sampledTwice : (sampleRun (fun c _ => MonitorOn c) sampledTwice).isSome := by
  decide +kernel

def afterTwice : Cfg Platform.sample :=
  (sampleRun (fun c _ => MonitorOn c) sampledTwice).get isSome_sampledTwice

theorem run_sampledTwice
    : (throttling Platform.sample).Run (fun c _ => MonitorOn c) sampleLoaded afterTwice :=
  (System.run_exec_get isSome_sampledTwice).mono (by simp)

theorem exponential_starts_again
    : ∃ c, (throttling Platform.sample).Run (fun c _ => MonitorOn c) sampleLoaded c ∧ MonitorOn c
      ∧ c.shared.handler = none ∧ samples c.trace = [0, 1]
      ∧ c.shared.st.mon.exponential = 1024 ∧ expMean [0, 1] = 256
      ∧ ¬Monitor.Follows c.shared.st.mon.exponential (samples c.trace) := by
  have hon : MonitorOn afterTwice := by decide +kernel
  have hidle : afterTwice.shared.handler = none := by decide +kernel
  have hxs : samples afterTwice.trace = [0, 1] := by decide +kernel
  have hstored : afterTwice.shared.st.mon.exponential = 1024 := by decide +kernel
  have hexact : expMean [0, 1] = 256 := by norm_num [expMean, expStep]
  have hword : (1024 : UInt64).toNat = 1024 := rfl
  refine ⟨afterTwice, run_sampledTwice, hon, hidle, hxs, hstored, hexact, ?_⟩
  rw [hxs, hstored, Monitor.Follows, hexact, hword]
  norm_num

end Throttling

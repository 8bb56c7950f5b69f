import SyscallThrottling.Lemmas.Blocked
import SyscallThrottling.Lemmas.Exponential
import SyscallThrottling.Lemmas.Sequential
import SyscallThrottling.Lemmas.Wakeup

/-!
This module contains what the runs of the handler have sampled, and that the statistics of the
blocked threads are those of the samples, in any interleaving of the steps.
-/

namespace Throttling

open Interleaving

variable {K : Platform}

def Event.sample : Event K → Option Nat
  | .sampled blocked => some blocked.toNat
  | _ => none

/-- The numbers of blocked threads that the runs of the handler have read, oldest first. -/
def samples (trace : List (Event K)) : List Nat :=
  (trace.filterMap Event.sample).reverse

section Samples

variable {ev trace : List (Event K)}

theorem samples_append : samples (ev ++ trace) = samples trace ++ samples ev := by
  rw [samples, List.filterMap_append, List.reverse_append]
  rfl

theorem samples_eq_nil (h : ∀ x ∈ ev, x.sample = none) : samples ev = [] := by
  rw [samples, List.filterMap_eq_nil_iff.mpr h, List.reverse_nil]

theorem samples_thread {s s' : Shared K} {t t' : Thread K} {i : Nat} {ch : Choice (Task K)}
    (hs : t.step i ch s = some (s', t', ev)) : samples ev = [] := by
  apply samples_eq_nil
  intro x hx
  have howner := attributed.thread hs x hx
  cases x with
  | sampled _ => cases howner
  | _ => rfl

theorem samples_handler {s s' : Shared K} {pc : HandlerPc} (hs : pc.step s = (s', ev))
    : ((∃ max, pc = .readBlocked max) ∧ samples ev = [s.st.mon.blockedThread.toNat])
      ∨ ((∀ max, pc ≠ .readBlocked max) ∧ samples ev = []) := by
  have hev : (pc.step s).2 = ev := by rw [hs]
  rw [← hev]
  cases pc with
  | readBlocked max => exact .inl ⟨⟨max, rfl⟩, rfl⟩
  | check =>
    refine .inr ⟨by simp, ?_⟩
    simp only [HandlerPc.step]
    split <;> rfl
  | readPeak max currBlocked =>
    refine .inr ⟨by simp, ?_⟩
    simp only [HandlerPc.step]
    split <;> rfl
  | _ => exact .inr ⟨by simp, rfl⟩

theorem Shared.envStep_quiet {s s' : Shared K} {e : EnvStep} (hs : s.envStep e = some (s', ev))
    (he : e ≠ .handler) : ev = [] := by
  unfold envStep locked at hs
  repeat' split at hs
  all_goals
    first
    | contradiction
    | (cases hs
       rfl)

end Samples

theorem ofInt_of_nonneg {b : Int} (hb : 0 ≤ b) : UInt64.ofInt b = UInt64.ofNat b.toNat := by
  apply UInt64.toNat_inj.mp
  rw [UInt64.ofInt, UInt64.toNat_ofNat', UInt64.toNat_ofNat']
  omega

namespace Monitor

def nextPeak (peak : Int) (x : Nat) : Int :=
  if UInt64.ofInt peak < UInt64.ofNat x then toInt (UInt64.ofNat x).toNat else peak

def peakAfter (xs : List Nat) : Int :=
  xs.foldl nextPeak 0

/-- The sum is over the samples `added`, and the peak and the mean over those they have taken in. -/
structure Records (m : Monitor) (added peaked averaged : List Nat) : Prop where
  sum : m.infoThreads.sumBlocked = UInt64.ofNat added.sum
  peak : m.infoThreads.peakBlocked = peakAfter peaked
  exponential : m.exponential = exponentialAfter 0 averaged

theorem peakAfter_concat (ys : List Nat) (x : Nat)
    : peakAfter (ys ++ [x]) = nextPeak (peakAfter ys) x := by
  rw [peakAfter, List.foldl_append]
  rfl

theorem sum_addSumBlocked {m : Monitor} {xs ys : List Nat} {x : Nat} {currBlocked : UInt64}
    (h : m.infoThreads.sumBlocked = UInt64.ofNat ys.sum) (hxs : xs = ys ++ [x])
    (hcurr : currBlocked = UInt64.ofNat x)
    : (m.addSumBlocked currBlocked).infoThreads.sumBlocked = UInt64.ofNat xs.sum := by
  show m.infoThreads.sumBlocked + currBlocked = UInt64.ofNat xs.sum
  rw [h, hcurr, hxs, List.sum_append_nat, List.sum_singleton, UInt64.ofNat_add]

theorem Records.setPeak {m m' : Monitor} {as ps ps' es : List Nat} {peak : Int}
    (h : m.Records as ps es)
    (hm : m' = { m with infoThreads := { m.infoThreads with peakBlocked := peak } })
    (hpeak : peak = peakAfter ps') : m'.Records as ps' es := by
  subst hm
  exact ⟨h.sum, hpeak, h.exponential⟩

theorem Records.same {m m' : Monitor} {as ps es : List Nat} (h : m.Records as ps es)
    (hm : m.SameStats m') : m'.Records as ps es where
  sum := hm.sumBlocked.trans h.sum
  peak := hm.peakBlocked.trans h.peak
  exponential := hm.exponential.trans h.exponential

end Monitor

/-- How far the run of the handler is with its sample, the last of `xs`. -/
def Recording (m : Monitor) (xs : List Nat) : Option HandlerPc → Prop
  | some (.addSum _ currBlocked) =>
    ∃ ys x, xs = ys ++ [x] ∧ currBlocked = UInt64.ofNat x ∧ m.Records ys ys ys
  | some (.readPeak _ currBlocked) =>
    ∃ ys x, xs = ys ++ [x] ∧ currBlocked = UInt64.ofNat x ∧ m.Records xs ys ys
  | some (.setPeak _ currBlocked) =>
    ∃ ys x, xs = ys ++ [x] ∧ currBlocked = UInt64.ofNat x ∧ m.Records xs ys ys
      ∧ UInt64.ofInt (Monitor.peakAfter ys) < UInt64.ofNat x
  | some (.readExponential _ currBlocked) =>
    ∃ ys x, xs = ys ++ [x] ∧ currBlocked = UInt64.ofNat x ∧ m.Records xs xs ys
  | some (.setExponential _ temp) =>
    ∃ ys, temp = Monitor.exponentialAfter 0 xs ∧ m.Records xs xs ys
  | _ => m.Records xs xs xs

namespace Recording

variable {m m' : Monitor} {xs : List Nat}

theorem loaded (T : SyscallTable K) (stats : Ptr → SyscallStats) (now : Nat)
    : Recording (State.loaded K T stats now).mon [] none :=
  Monitor.Records.mk rfl rfl rfl

theorem same {pc : Option HandlerPc} (h : Recording m xs pc) (hm : m.SameStats m')
    : Recording m' xs pc := by
  unfold Recording at h ⊢
  split at h
  . obtain ⟨ys, x, hxs, hcurr, hrec⟩ := h
    exact ⟨ys, x, hxs, hcurr, hrec.same hm⟩
  . obtain ⟨ys, x, hxs, hcurr, hrec⟩ := h
    exact ⟨ys, x, hxs, hcurr, hrec.same hm⟩
  . obtain ⟨ys, x, hxs, hcurr, hrec, hpeak⟩ := h
    exact ⟨ys, x, hxs, hcurr, hrec.same hm, hpeak⟩
  . obtain ⟨ys, x, hxs, hcurr, hrec⟩ := h
    exact ⟨ys, x, hxs, hcurr, hrec.same hm⟩
  . obtain ⟨ys, htemp, hrec⟩ := h
    exact ⟨ys, htemp, hrec.same hm⟩
  . exact h.same hm

/-- Every step of the handler. A count is never negative, so the sample is the count it reads. -/
theorem handlerStep {s s' : Shared K} {trace ev : List (Event K)} {pc : HandlerPc}
    (h : Recording s.st.mon (samples trace) s.handler) (hpc : s.handler = some pc)
    (hb : 0 ≤ s.st.mon.blockedThread) (hs : pc.step s = (s', ev))
    : Recording s'.st.mon (samples (ev ++ trace)) s'.handler := by
  rw [hpc] at h
  cases pc with
  | check =>
    simp only [HandlerPc.step] at hs
    split at hs <;> cases hs <;> exact h
  | readMax =>
    cases hs
    exact h
  | readBlocked max =>
    cases hs
    refine ⟨samples trace, s.st.mon.blockedThread.toNat, samples_append, ofInt_of_nonneg hb, ?_⟩
    exact h
  | addSum max currBlocked =>
    cases hs
    obtain ⟨ys, x, hxs, hcurr, hrec⟩ := h
    refine ⟨ys, x, hxs, hcurr, ?_, hrec.peak, hrec.exponential⟩
    exact Monitor.sum_addSumBlocked hrec.sum hxs hcurr
  | readPeak max currBlocked =>
    obtain ⟨ys, x, hxs, hcurr, hrec⟩ := h
    simp only [HandlerPc.step] at hs
    split at hs
    . next hpeak =>
      cases hs
      refine ⟨ys, x, hxs, hcurr, hrec, ?_⟩
      rw [← hrec.peak, ← hcurr]
      exact of_decide_eq_true hpeak
    . next hpeak =>
      cases hs
      refine ⟨ys, x, hxs, hcurr, hrec.sum, ?_, hrec.exponential⟩
      have hle : ¬UInt64.ofInt (Monitor.peakAfter ys) < UInt64.ofNat x := by
        rw [← hrec.peak, ← hcurr]
        exact fun hlt => hpeak (decide_eq_true hlt)
      show s.st.mon.infoThreads.peakBlocked = Monitor.peakAfter (samples trace)
      rw [hxs, Monitor.peakAfter_concat, Monitor.nextPeak, if_neg hle]
      exact hrec.peak
  | setPeak max currBlocked =>
    obtain ⟨ys, x, hxs, hcurr, hrec, hpeak⟩ := h
    have hrec' : (s.st.mon.setPeakBlocked currBlocked).Records (samples trace)
        (samples trace) ys := by
      refine hrec.setPeak (by rw [Monitor.setPeakBlocked]) ?_
      rw [hxs, Monitor.peakAfter_concat, Monitor.nextPeak, if_pos hpeak, hcurr]
    rw [HandlerPc.step] at hs
    generalize s.st.mon.setPeakBlocked currBlocked = m at hs hrec'
    cases hs
    exact ⟨ys, x, hxs, hcurr, hrec'⟩
  | readExponential max currBlocked =>
    cases hs
    obtain ⟨ys, x, hxs, hcurr, hrec⟩ := h
    refine ⟨ys, ?_, hrec⟩
    show _ = Monitor.exponentialAfter 0 (samples trace)
    rw [hxs, Monitor.exponentialAfter_concat, ← hcurr, hrec.exponential]
  | setExponential max temp =>
    cases hs
    obtain ⟨ys, htemp, hrec⟩ := h
    exact ⟨hrec.sum, hrec.peak, htemp⟩
  | setCurr max =>
    cases hs
    exact Monitor.Records.same h ⟨rfl, rfl, rfl⟩
  | wake =>
    cases hs
    exact Monitor.Records.same h ⟨rfl, rfl, rfl⟩
  | modTimer =>
    cases hs
    exact Monitor.Records.same h ⟨rfl, rfl, rfl⟩

theorem envStep {s s' : Shared K} {trace ev : List (Event K)} {e : EnvStep}
    (h : Recording s.st.mon (samples trace) s.handler) (hb : 0 ≤ s.st.mon.blockedThread)
    (hs : s.envStep e = some (s', ev))
    : Recording s'.st.mon (samples (ev ++ trace)) s'.handler := by
  rcases Shared.envStep_cases hs with ⟨_, rfl, rfl⟩ | ⟨_, _, hidle, _, rfl, rfl⟩ | ⟨pc, hpc, hs⟩
    | ⟨newMax, rfl, rfl⟩ | ⟨_, _, _, _, rfl, rfl⟩
  . exact h.same ⟨rfl, rfl, rfl⟩
  . rw [hidle] at h
    exact Monitor.Records.same h ⟨rfl, rfl, rfl⟩
  . exact h.handlerStep hpc hb hs
  . unfold Monitor.setMaxSyscall
    split <;> exact h.same ⟨rfl, rfl, rfl⟩
  . exact h

theorem threadStep {s s' : Shared K} {trace ev : List (Event K)} {i : Nat} {ch : Choice (Task K)}
    {t t' : Thread K} (h : Recording s.st.mon (samples trace) s.handler)
    (hs : t.step i ch s = some (s', t', ev))
    : Recording s'.st.mon (samples (ev ++ trace)) s'.handler := by
  obtain ⟨hsame, hhandler⟩ := Thread.step_stats hs
  rw [samples_append, samples_thread hs, List.append_nil, hhandler]
  exact h.same hsame

theorem of_reachable {T : SyscallTable K} {c : Cfg K} (h : Reachable K T c)
    : Recording c.shared.st.mon (samples c.trace) c.shared.handler := by
  obtain ⟨stats, now, h⟩ := h
  have hrun := h.with_invariant (census_loaded T stats now)
    fun _ _ _ hc _ hs => hc.step counts_blocked hs
  refine hrun.invariant (I := fun c => Recording c.shared.st.mon (samples c.trace) c.shared.handler)
    (loaded T stats now) ?_
  intro c l c' hc hg hs
  cases l with
  | env e =>
    obtain ⟨s, ev, heq, rfl⟩ := System.step_env hs
    exact hc.envStep hg.2.nonneg heq
  | run i ch =>
    obtain ⟨s, t, ev, heq, rfl⟩ := System.step_run hs
    exact hc.threadStep heq

end Recording

def added (c : Cfg K) : List Nat :=
  match c.shared.handler with
  | some (.addSum _ _) => (samples c.trace).dropLast
  | _ => samples c.trace

def ReadsBlocked (c : Cfg K) (l : Lbl K) : Prop :=
  l = .env .handler ∧ ∃ max, c.shared.handler = some (.readBlocked max)

structure BlockedAccounts (c : Cfg K) : Prop where
  finite : {i | (c.locals i).blocked}.Finite
  count : c.shared.st.mon.blockedThread = ({i | (c.locals i).blocked}.ncard : Nat)
  nonneg : 0 ≤ c.shared.st.mon.blockedThread
  left : (∀ i w, c.locals i = .wrapper w → ∃ ret, w.pc = .done ret) →
    c.shared.st.mon.blockedThread = 0
  read : ∀ l c', (throttling K).step c l = some c' → ReadsBlocked c l →
    samples c'.trace = samples c.trace ++ [{i | (c.locals i).blocked}.ncard]
  unread : ∀ l c', (throttling K).step c l = some c' → ¬ReadsBlocked c l →
    samples c'.trace = samples c.trace
  sum : c.shared.st.mon.infoThreads.sumBlocked.toNat = (added c).sum % 2 ^ 64

theorem samples_step {c c' : Cfg K} {l : Lbl K} (hs : (throttling K).step c l = some c')
    : (ReadsBlocked c l
        ∧ samples c'.trace = samples c.trace ++ [c.shared.st.mon.blockedThread.toNat])
      ∨ (¬ReadsBlocked c l ∧ samples c'.trace = samples c.trace) := by
  cases l with
  | env e =>
    obtain ⟨s, ev, heq, rfl⟩ := System.step_env hs
    rw [samples_append]
    by_cases he : e = .handler
    . subst he
      obtain ⟨pc, hpc, hstep⟩ := Option.map_eq_some_iff.mp heq
      rcases samples_handler hstep with ⟨⟨max, rfl⟩, hxs⟩ | ⟨hne, hxs⟩
      . exact .inl ⟨⟨rfl, max, hpc⟩, by rw [hxs]⟩
      . refine .inr ⟨?_, by rw [hxs, List.append_nil]⟩
        rintro ⟨_, max, hread⟩
        rw [hpc, Option.some.injEq] at hread
        exact hne max hread
    . refine .inr ⟨fun hread => he (Label.env.inj hread.1), ?_⟩
      rw [Shared.envStep_quiet heq he]
      exact List.append_nil _
  | run i ch =>
    obtain ⟨s, t, ev, heq, rfl⟩ := System.step_run hs
    refine .inr ⟨by simp [ReadsBlocked], ?_⟩
    rw [samples_append, samples_thread heq, List.append_nil]

theorem Recording.sumBlocked {c : Cfg K}
    (h : Recording c.shared.st.mon (samples c.trace) c.shared.handler)
    : c.shared.st.mon.infoThreads.sumBlocked = UInt64.ofNat (added c).sum := by
  unfold added
  split
  . next hpc =>
    rw [hpc] at h
    obtain ⟨ys, x, hxs, _, hrec⟩ := h
    rw [hxs, List.dropLast_concat]
    exact hrec.sum
  . next hne =>
    unfold Recording at h
    split at h
    . next hpc => exact absurd hpc (hne _ _)
    . obtain ⟨_, _, _, _, hrec⟩ := h
      exact hrec.sum
    . obtain ⟨_, _, _, _, hrec, _⟩ := h
      exact hrec.sum
    . obtain ⟨_, _, _, _, hrec⟩ := h
      exact hrec.sum
    . obtain ⟨_, _, hrec⟩ := h
      exact hrec.sum
    . exact Monitor.Records.sum h

theorem blocked_accounting {T : SyscallTable K} {c : Cfg K} (h : Reachable K T c)
    : BlockedAccounts c := by
  have hcensus := census_of_reachable h
  have hcount := hcensus.eq_ncard
  refine ⟨hcensus.finite, hcount, hcensus.nonneg, ?_, ?_, ?_, ?_⟩
  . intro hleft
    have hempty : {i | (c.locals i).blocked} = ∅ := by
      rw [Set.eq_empty_iff_forall_notMem]
      intro i hi
      obtain ⟨w, hw, hpc⟩ := Thread.wrapper_of_blocked hi
      obtain ⟨ret, hdone⟩ := hleft i w hw
      rw [hdone] at hpc
      cases hpc
    rw [hcount, hempty, Set.ncard_empty, Nat.cast_zero]
  . intro l c' hs hread
    rcases samples_step hs with ⟨_, hxs⟩ | ⟨hno, _⟩
    . rw [hxs, hcount, Int.toNat_natCast]
    . exact absurd hread hno
  . intro l c' hs hunread
    rcases samples_step hs with ⟨hread, _⟩ | ⟨_, hxs⟩
    . exact absurd hread hunread
    . exact hxs
  . rw [(Recording.of_reachable h).sumBlocked, UInt64.toNat_ofNat']

theorem blocked_accounting_fourCalls
    : BlockedAccounts ((sampleRun (fun _ _ => true) fourCalls).get isSome_fourCalls) :=
  blocked_accounting (reachable_sampleRun isSome_fourCalls)

/-- The fourth of the callers sleeps when the first epoch ends. -/
def sampledOnce : List (Lbl Platform.sample) :=
  fourCalls ++ .env (.tick 250) :: .env .expire :: List.replicate 11 (.env .handler)

theorem isSome_sampledOnce : (sampleRun (fun _ _ => true) sampledOnce).isSome := by
  decide

/-- The caller runs only after the second epoch, and the third one ends without it. -/
def sampledThrice : List (Lbl Platform.sample) :=
  sampledOnce ++ .env (.tick 250) :: .env .expire :: List.replicate 10 (.env .handler) ++ steps 4 10
    ++ .env (.tick 250) :: .env .expire :: List.replicate 10 (.env .handler)

theorem isSome_sampledThrice : (sampleRun (fun _ _ => true) sampledThrice).isSome := by
  decide +kernel

def afterThrice : Cfg Platform.sample :=
  (sampleRun (fun _ _ => true) sampledThrice).get isSome_sampledThrice

theorem reaches_sampledThrice : (throttling Platform.sample).Reaches sampleLoaded afterThrice :=
  (System.run_exec_get isSome_sampledThrice).reaches

theorem samples_sampledThrice : samples afterThrice.trace = [1, 1, 0] := by
  decide +kernel

theorem Monitor.epochHandler_stats {m : Monitor} (hon : m.isMonitorActive ≠ 0)
    : (m.epochHandler K).infoThreads.sumBlocked = m.infoThreads.sumBlocked + m.blockedUlong
      ∧ (m.epochHandler K).infoThreads.peakBlocked
        = (if m.peakExceeded m.blockedUlong then toInt m.blockedUlong.toNat
          else m.infoThreads.peakBlocked)
      ∧ (m.epochHandler K).blockedThread = m.blockedThread
      ∧ (m.epochHandler K).isMonitorActive = m.isMonitorActive
      ∧ (m.epochHandler K).epochTimer = some (m.jiffies + K.HZ) := by
  have hpeak : (m.addSumBlocked m.blockedUlong).setPeakBlocked m.blockedUlong
      = { m.addSumBlocked m.blockedUlong with infoThreads :=
          { (m.addSumBlocked m.blockedUlong).infoThreads with
            peakBlocked := toInt m.blockedUlong.toNat } } := by
    rw [setPeakBlocked]
  rw [epochHandler, if_neg hon]
  dsimp only
  rw [hpeak]
  -- the stored number stays a variable, so that nothing evaluates it
  generalize toInt m.blockedUlong.toNat = peak
  have hsame : (m.addSumBlocked m.blockedUlong).peakExceeded m.blockedUlong
      = m.peakExceeded m.blockedUlong := rfl
  rw [hsame]
  split <;> exact ⟨rfl, rfl, rfl, rfl, rfl⟩

structure OneBlocked (c : Cfg Platform.sample) : Prop where
  reachable : Reachable Platform.sample SyscallTable.sample c
  idle : c.shared.handler = none
  timer : ∃ expires, c.shared.st.mon.epochTimer = some expires
  on : c.shared.st.mon.isMonitorActive = 1
  blocked : c.shared.st.mon.blockedThread = 1

theorem added_of_idle {c : Cfg K} (h : c.shared.handler = none) : added c = samples c.trace := by
  rw [added, h]

theorem sum_samples_lt {T : SyscallTable K} {c c' : Cfg K} (h : Reachable K T c)
    (hrun : (throttling K).Reaches c c') (hidle : c.shared.handler = none)
    (hidle' : c'.shared.handler = none)
    (hne : c'.shared.st.mon.infoThreads.sumBlocked ≠ c.shared.st.mon.infoThreads.sumBlocked)
    : (samples c.trace).sum < (samples c'.trace).sum := by
  have hold := (Recording.of_reachable h).sumBlocked
  have hnew := (Recording.of_reachable (reachable_trans h hrun)).sumBlocked
  rw [added_of_idle hidle] at hold
  rw [added_of_idle hidle'] at hnew
  obtain ⟨seg, hseg⟩ := hrun.trace_append
  rw [hseg, samples_append, List.sum_append_nat] at hnew ⊢
  by_contra hlt
  have hseg0 : (samples seg).sum = 0 := by omega
  rw [hseg0, Nat.add_zero, ← hold] at hnew
  exact hne hnew

theorem OneBlocked.epoch {c : Cfg Platform.sample} (h : OneBlocked c)
    : ∃ c', OneBlocked c' ∧ (samples c.trace).sum < (samples c'.trace).sum := by
  obtain ⟨expires, htimer⟩ := h.timer
  obtain ⟨c', hreach, _, hidle, hmon⟩ := epoch_sequential c h.idle htimer
  have hon : (c.shared.st.mon.expireAt expires).isMonitorActive ≠ 0 := by
    have : c.shared.st.mon.isMonitorActive ≠ 0 := by simp [h.on]
    exact this
  obtain ⟨hsum, _, hblocked, hactive, hnext⟩ :=
    Monitor.epochHandler_stats (K := Platform.sample) hon
  rw [← hmon] at hsum hblocked hactive hnext
  have hreach' := reachable_trans h.reachable hreach
  have hc' : OneBlocked c' :=
    ⟨hreach', hidle, ⟨_, hnext⟩, hactive.trans h.on, hblocked.trans h.blocked⟩
  refine ⟨c', hc', ?_⟩
  have hone : (c.shared.st.mon.expireAt expires).blockedUlong = 1 := by
    show UInt64.ofInt c.shared.st.mon.blockedThread = 1
    rw [h.blocked]
    rfl
  have hadd : c'.shared.st.mon.infoThreads.sumBlocked
      = c.shared.st.mon.infoThreads.sumBlocked + 1 := by
    rw [hsum, hone]
    rfl
  refine sum_samples_lt h.reachable hreach h.idle hidle ?_
  rw [hadd]
  intro heq
  have hnat := congrArg UInt64.toNat heq
  rw [UInt64.toNat_add] at hnat
  have := c.shared.st.mon.infoThreads.sumBlocked.toNat_lt
  have h1 : (1 : UInt64).toNat = 1 := rfl
  omega

theorem OneBlocked.exists_sum (n : Nat) : ∃ c, OneBlocked c ∧ n ≤ (samples c.trace).sum := by
  induction n with
  | zero =>
    refine ⟨_, ⟨reachable_sampleRun isSome_fourCalls, ?_, ?_, ?_, ?_⟩, Nat.zero_le _⟩
    . rfl
    . exact ⟨250, rfl⟩
    . rfl
    . rfl
  | succ n ih =>
    obtain ⟨c, hc, hle⟩ := ih
    obtain ⟨c', hc', hlt⟩ := hc.epoch
    exact ⟨c', hc', by omega⟩

/-- The word overflows when one invocation is blocked for as many epochs as it has values. -/
theorem sumBlocked_wraps
    : ∃ c, Reachable Platform.sample SyscallTable.sample c ∧ c.shared.handler = none
      ∧ c.shared.st.mon.infoThreads.sumBlocked.toNat ≠ (samples c.trace).sum := by
  obtain ⟨c, hc, hle⟩ := OneBlocked.exists_sum (2 ^ 64)
  refine ⟨c, hc.reachable, hc.idle, ?_⟩
  have := c.shared.st.mon.infoThreads.sumBlocked.toNat_lt
  omega

end Throttling

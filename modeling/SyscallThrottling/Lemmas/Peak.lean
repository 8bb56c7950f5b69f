import Mathlib.Order.Bounds.Defs
import SyscallThrottling.Impl.Statistics
import SyscallThrottling.Lemmas.Wrapper

/-!
This module contains the peak delay of a system call as a maximum over the calls of
`check_and_set_statistic`, in any interleaving of their steps.
-/

namespace Throttling

open Interleaving SyscallRegistry

variable {K : Platform}

namespace SyscallRegistry

theorem lookup_hashAdd_self (r : SyscallRegistry K) (node : HackedSyscall K) (stats : SyscallStats)
    : (r.hashAdd node stats).lookup node.syscallNr = some node := by
  simp [lookup, hashAdd, HashTable.find?]

end SyscallRegistry

theorem lookup_registerSystemCall {env : Env} {n : Fin K.nrSyscalls} {s : State K}
    (h : (registerSystemCall env (n : Nat) s).1 = 0)
    : ∃ x, (registerSystemCall env (n : Nat) s).2.sys.lookup n = some x
      ∧ (registerSystemCall env (n : Nat) s).2.sys.stats x.stats = freshStats env.junk.stats n := by
  unfold registerSystemCall at h ⊢
  rw [arrayIndexNospec_coe] at h ⊢
  split
  . next heq => simp [heq, ENOMEM] at h
  . next stats heap heq =>
    rw [heq] at h
    dsimp only at h ⊢
    split
    . next heq' => simp [heq', ENOMEM] at h
    . next newHack heap' heq' =>
      rw [heq'] at h
      dsimp only at h ⊢
      split
      . next hflag => simp [hflag, EEXIST] at h
      . exact ⟨_, lookup_hashAdd_self _ _ (freshStats env.junk.stats n), Function.update_self ..⟩

structure SyscallStats.IsOf (r : SyscallStats) (inv : Invocation) : Prop where
  delay : r.peakDelay = inv.delay
  uid : r.peakUid = inv.euid
  progName : r.peakProgName.str = CString.truncate 15 inv.comm.toList

/-- The record holds the maximum of 0 and the delays of the log, and who had it. -/
structure IsPeak (r : SyscallStats) (log : List Invocation) : Prop where
  delay : IsGreatest (insert 0 { d | ∃ inv ∈ log, inv.delay = d }) r.peakDelay
  caller : log ≠ [] → ∃ inv ∈ log, r.IsOf inv

namespace IsPeak

variable {r : SyscallStats} {log : List Invocation}

theorem fresh (junk : SyscallStats) (n : Fin K.nrSyscalls) : IsPeak (freshStats junk n) [] where
  delay := by
    refine ⟨Set.mem_insert _ _, ?_⟩
    rintro d (rfl | ⟨inv, hmem, _⟩)
    . exact UInt64.le_refl _
    . simp at hmem
  caller h := absurd rfl h

theorem le (h : IsPeak r log) {inv : Invocation} (hmem : inv ∈ log) : inv.delay ≤ r.peakDelay :=
  h.delay.2 (.inr ⟨inv, hmem, rfl⟩)

theorem ne_nil (h : IsPeak r log) (h0 : 0 < r.peakDelay) : log ≠ [] := by
  rintro rfl
  rcases h.delay.1 with heq | ⟨inv, hmem, _⟩
  . rw [heq] at h0
    exact absurd h0 (by decide)
  . simp at hmem

theorem reject (h : IsPeak r log) {inv : Invocation} (h0 : 0 < inv.delay)
    (hle : inv.delay ≤ r.peakDelay) : IsPeak r (inv :: log) where
  delay := by
    refine ⟨h.delay.1.imp id fun ⟨x, hmem, hx⟩ => ⟨x, List.mem_cons_of_mem _ hmem, hx⟩, ?_⟩
    rintro d (rfl | ⟨x, hmem, rfl⟩)
    . exact h.delay.2 (.inl rfl)
    . rcases List.mem_cons.mp hmem with rfl | hmem
      . exact hle
      . exact h.le hmem
  caller _ := by
    obtain ⟨x, hmem, hx⟩ := h.caller (h.ne_nil (UInt64.lt_of_lt_of_le h0 hle))
    exact ⟨x, List.mem_cons_of_mem _ hmem, hx⟩

theorem store (h : IsPeak r log) (inv : Invocation) {r' : SyscallStats}
    (hle : r.peakDelay ≤ inv.delay) (hr : r'.IsOf inv) : IsPeak r' (inv :: log) where
  delay := by
    refine ⟨.inr ⟨inv, List.mem_cons_self, hr.delay.symm⟩, ?_⟩
    rw [hr.delay]
    rintro d (rfl | ⟨x, hmem, rfl⟩)
    . exact UInt64.le_trans (h.delay.2 (.inl rfl)) hle
    . rcases List.mem_cons.mp hmem with rfl | hmem
      . exact UInt64.le_refl _
      . exact UInt64.le_trans (h.le hmem) hle
  caller _ := ⟨inv, List.mem_cons_self, hr⟩

end IsPeak

/--
An update is made only while the comparison that led to it would not fail if it were repeated: no
larger delay was stored in between.
-/
def Fresh (c : StatCfg K) : StatLbl → Prop
  | .env _ => True
  | .run i _ => ∀ w p, c.locals i = .running w → w.pc = .statUpdate p →
    (c.shared.st.sys.stats p).peakDelay ≤ w.delay

/-- Where a call of `check_and_set_statistic` for the node `x` of `n` can be. -/
def Caller.At (n : Fin K.nrSyscalls) (x : HackedSyscall K) : Caller K → Prop
  | .idle => True
  | .running w => w.regs.origAx = n ∧ (w.pc = .callOriginal
    ∨ 0 < w.delay ∧ (w.pc = .statLookup ∨ w.pc = .statCompare x.stats ∨ w.pc = .statUpdate x.stats))

section Step

variable {n : Fin K.nrSyscalls} {x : HackedSyscall K} {i : Nat} {ch : Choice Invocation}
  {s s' : Shared K} {t t' : Caller K} {ev : List Invocation}

theorem Invocation.at_wrapper (inv : Invocation) : (Caller.running (inv.wrapper n)).At n x := by
  unfold wrapper Wrapper.tail
  split
  . next h => exact ⟨rfl, .inr ⟨h, .inl rfl⟩⟩
  . exact ⟨rfl, .inl rfl⟩

theorem Caller.step_cases (h : Caller.step n i ch s t = some (s', t', ev))
    (hlookup : s.st.sys.lookup n = some x) (ht : t.At n x)
    : t'.At n x ∧ ((s'.st = s.st ∧ ev = [])
      ∨ (∃ inv, s'.st = s.st ∧ ev = [inv] ∧ 0 < inv.delay
        ∧ inv.delay ≤ (s.st.sys.stats x.stats).peakDelay)
      ∨ ∃ w, t = .running w ∧ w.pc = .statUpdate x.stats
        ∧ s'.st = (Wrapper.updateStats s x.stats w).st ∧ ev = [⟨w.delay, w.euid, w.comm⟩]) := by
  cases t with
  | idle =>
    simp only [step] at h
    split at h
    . next inv =>
      cases h
      exact ⟨inv.at_wrapper, .inl ⟨rfl, rfl⟩⟩
    . contradiction
  | running w =>
    simp only [step] at h
    split at h
    . contradiction
    . next hne =>
      obtain ⟨hn, hpc⟩ := ht
      obtain ⟨hpos, hpc⟩ := hpc.resolve_left hne
      rw [Option.map_eq_some_iff] at h
      obtain ⟨⟨s₁, w₁, ev₁⟩, hstep, heq⟩ := h
      cases heq
      unfold Wrapper.step at hstep
      rcases hpc with hpc | hpc | hpc
      . rw [hpc] at hstep
        cases ch with
        | go =>
          dsimp only at hstep
          rw [hn, hlookup] at hstep
          cases hstep
          exact ⟨⟨hn, .inr ⟨hpos, .inr (.inl rfl)⟩⟩, .inl ⟨rfl, rfl⟩⟩
        | _ => contradiction
      . rw [hpc] at hstep
        cases ch with
        | go =>
          dsimp only at hstep
          split at hstep
          . cases hstep
            exact ⟨⟨hn, .inr ⟨hpos, .inr (.inr rfl)⟩⟩, .inl ⟨rfl, rfl⟩⟩
          . next hlt =>
            cases hstep
            refine ⟨⟨hn, .inl rfl⟩, .inr (.inl ⟨_, rfl, rfl, hpos, ?_⟩)⟩
            exact UInt64.not_lt.mp hlt
        | _ => contradiction
      . rw [hpc] at hstep
        cases ch with
        | go =>
          cases hstep
          exact ⟨⟨hn, .inl rfl⟩, .inr (.inr ⟨w, rfl, hpc, rfl, rfl⟩)⟩
        | _ => contradiction

end Step

def peakOutline (n : Fin K.nrSyscalls) (x : HackedSyscall K)
    : System.Outline (statistics K n) Fresh where
  shared s log := s.st.sys.lookup n = some x ∧ IsPeak (s.st.sys.stats x.stats) log
  thread _ _ _ t := t.At n x
  env_ok := by
    intro c e s ev _ hsh hs
    simp only [statistics, Option.map_eq_some_iff] at hs
    obtain ⟨⟨s', ev'⟩, hs, heq⟩ := hs
    cases heq
    rw [(Shared.envStep_sys hs).2]
    exact ⟨hsh, fun _ _ ht => ht⟩
  thread_ok := by
    intro c i ch s t ev hg hsh ht hs
    obtain ⟨hlookup, hpeak⟩ := hsh
    obtain ⟨ht', hcases⟩ := Caller.step_cases hs hlookup ht
    refine ⟨?_, ht', fun _ _ _ ht => ht⟩
    rcases hcases with ⟨hst, rfl⟩ | ⟨inv, hst, rfl, hpos, hle⟩ | ⟨w, hi, hpc, hst, rfl⟩
    . rw [hst]
      exact ⟨hlookup, hpeak⟩
    . rw [hst]
      exact ⟨hlookup, hpeak.reject hpos hle⟩
    . rw [hst]
      refine ⟨hlookup, ?_⟩
      rw [show (Wrapper.updateStats c.shared x.stats w).st.sys.stats x.stats = _ from
        Function.update_self ..]
      exact hpeak.store ⟨w.delay, w.euid, w.comm⟩ (hg w _ hi hpc)
        ⟨rfl, rfl, Comm.str_strscpy _ _⟩

/--
As long as no update stores a delay below the one it finds, the peak is the maximum of the delays of
all calls that have returned, the caller in the record had it, and the peak never decreases.
-/
theorem peak_is_maximum {env : Env} {n : Fin K.nrSyscalls} {s : State K}
    (hreg : (registerSystemCall env (n : Nat) s).1 = 0) {c : StatCfg K}
    (hrun : (statistics K n).Run Fresh (statRegistered env n s) c)
    : ∃ r, c.shared.st.sys.statsOf n = some r ∧ IsPeak r c.trace
      ∧ ∀ c', (statistics K n).Run Fresh c c' →
        ∃ r', c'.shared.st.sys.statsOf n = some r' ∧ r.peakDelay ≤ r'.peakDelay := by
  obtain ⟨x, hlookup, hstats⟩ := lookup_registerSystemCall hreg
  have h0 : (peakOutline n x).Holds (statRegistered env n s) := by
    refine ⟨⟨hlookup, ?_⟩, fun _ => trivial⟩
    rw [show (statRegistered env n s).shared.st.sys.stats x.stats = _ from hstats]
    exact .fresh _ n
  have hstatsOf {c : StatCfg K} (hx : c.shared.st.sys.lookup n = some x)
      : c.shared.st.sys.statsOf n = some (c.shared.st.sys.stats x.stats) := by
    rw [statsOf, hx, Option.map_some]
  obtain ⟨⟨hx, hpeak⟩, _⟩ := (peakOutline n x).holds_of_run hrun h0
  refine ⟨_, hstatsOf hx, hpeak, fun c' hrun' => ?_⟩
  obtain ⟨⟨hx', hpeak'⟩, _⟩ := (peakOutline n x).holds_of_run (hrun.trans hrun') h0
  refine ⟨_, hstatsOf hx', ?_⟩
  -- the log only grows, and the new peak bounds every delay in it
  obtain ⟨seg, hseg⟩ := hrun'.trace_append
  rcases hpeak.delay.1 with hzero | ⟨inv, hmem, hinv⟩
  . rw [hzero]
    exact hpeak'.delay.2 (.inl rfl)
  . rw [← hinv]
    apply hpeak'.le
    rw [hseg]
    exact List.mem_append_right _ hmem

def sampleNr : Fin Platform.sample.nrSyscalls :=
  sampleRegs.origAx

def sampleStat : StatCfg Platform.sample :=
  statRegistered Env.sample sampleNr (State.loaded _ SyscallTable.sample (fun _ => .zero) 0)

def statRun (g : StatCfg Platform.sample → StatLbl → Bool) (ls : List StatLbl)
    : Option (StatCfg Platform.sample) :=
  (statistics Platform.sample sampleNr).exec g sampleStat ls

def statCall (i : Nat) (delay : UInt64) (euid : UInt32) : StatLbl :=
  .run i (.start ⟨delay, euid, Comm.ofBytes []⟩)

def statSteps (i k : Nat) : List StatLbl :=
  List.replicate k (.run i .go)

def staysFresh (c : StatCfg K) : StatLbl → Bool
  | .env _ => true
  | .run i _ =>
    match c.locals i with
    | .idle => true
    | .running w =>
      match w.pc with
      | .statUpdate p => (c.shared.st.sys.stats p).peakDelay ≤ w.delay
      | _ => true

theorem fresh_of_staysFresh {c : StatCfg K} {l : StatLbl} (h : staysFresh c l = true)
    : Fresh c l := by
  cases l with
  | env e => trivial
  | run i ch =>
    intro w p hi hpc
    simpa [staysFresh, hi, hpc] using h

def twoCalls : List StatLbl :=
  statCall 0 10 1000 :: statSteps 0 3 ++ statCall 1 20 1001 :: statSteps 1 3

theorem isSome_twoCalls : (statRun staysFresh twoCalls).isSome := by
  decide

theorem peak_is_maximum_twoCalls
    : ∃ c : StatCfg Platform.sample, c.trace.length = 2
      ∧ ∃ r, c.shared.st.sys.statsOf sampleNr = some r ∧ IsPeak r c.trace := by
  obtain ⟨r, hr, hpeak, _⟩ := peak_is_maximum (n := sampleNr) (by decide)
    ((System.run_exec_get isSome_twoCalls).mono fun _ _ => fresh_of_staysFresh)
  exact ⟨_, rfl, r, hr, hpeak⟩

def Caller.inProgress : Caller K → Bool
  | .idle => false
  | .running w => w.pc ≠ .callOriginal

/-- Both calls compare with 0 before either stores. The larger delay is stored first. -/
def crossedCalls : List StatLbl :=
  statCall 0 10 1000 :: statSteps 0 2 ++ (statCall 1 20 1001 :: statSteps 1 3) ++ statSteps 0 1

theorem isSome_crossedCalls : (statRun (fun _ _ => true) crossedCalls).isSome := by
  decide

theorem peak_overwritten
    : ∃ c, (statistics Platform.sample sampleNr).Reaches sampleStat c
      ∧ (∀ i, (c.locals i).inProgress = false) ∧ ⟨20, 1001, Comm.ofBytes []⟩ ∈ c.trace
      ∧ ∃ r, c.shared.st.sys.statsOf sampleNr = some r ∧ r.peakDelay = 10 ∧ ¬IsPeak r c.trace := by
  have hmem : ⟨20, 1001, Comm.ofBytes []⟩
      ∈ ((statRun (fun _ _ => true) crossedCalls).get isSome_crossedCalls).trace := by
    decide
  refine ⟨_, (System.run_exec_get isSome_crossedCalls).reaches, fun i => ?_, hmem, _, rfl,
    by decide, fun h => ?_⟩
  . match i with
    | 0 => rfl
    | 1 => rfl
    | i + 2 => rfl
  . exact absurd (h.le hmem) (by decide)

end Throttling

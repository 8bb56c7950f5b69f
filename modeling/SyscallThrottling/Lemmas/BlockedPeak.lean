import SyscallThrottling.Lemmas.Samples

/-!
This module contains the peak of the blocked threads: it is the largest of the sampled numbers, and
misses what no run of the handler sees.
-/

namespace Throttling

open Interleaving

variable {K : Platform}

namespace Monitor

theorem nextPeak_eq_max {p x : Nat} (hp : p < 2 ^ 31) (hx : x < 2 ^ 31)
    : nextPeak p x = (max p x : Nat) := by
  have hlt : UInt64.ofInt (p : Int) < UInt64.ofNat x ↔ p < x := by
    rw [ofInt_of_nonneg (Int.natCast_nonneg p), UInt64.lt_iff_toNat_lt, UInt64.toNat_ofNat',
      UInt64.toNat_ofNat']
    omega
  have hstored : toInt (UInt64.ofNat x).toNat = x := by
    rw [UInt64.toNat_ofNat', Nat.mod_eq_of_lt (by omega)]
    apply toInt_eq_self <;> omega
  unfold nextPeak
  by_cases h : p < x
  . rw [if_pos (hlt.mpr h), hstored, max_eq_right h.le]
  . rw [if_neg (mt hlt.mp h), max_eq_left (Nat.le_of_not_lt h)]

theorem foldl_nextPeak {p : Nat} {xs : List Nat} (hp : p < 2 ^ 31) (hxs : ∀ x ∈ xs, x < 2 ^ 31)
    : xs.foldl nextPeak p = (xs.foldl max p : Nat) := by
  induction xs generalizing p with
  | nil => rfl
  | cons x xs ih =>
    rw [List.forall_mem_cons] at hxs
    rw [List.foldl_cons, nextPeak_eq_max hp hxs.1]
    exact ih (max_lt hp hxs.1) hxs.2

end Monitor

/--
The peak is compared with the samples only: between two of them it may miss any number of blocked
threads.
-/
theorem peak_eq_largest_sample {T : SyscallTable K} {c : Cfg K} (h : Reachable K T c)
    (hidle : c.shared.handler = none) (hxs : ∀ x ∈ samples c.trace, x < 2 ^ 31)
    : c.shared.st.mon.infoThreads.peakBlocked = (largest (samples c.trace) : Nat) := by
  have hrec := Recording.of_reachable h
  rw [hidle] at hrec
  exact (Monitor.Records.peak hrec).trans (Monitor.foldl_nextPeak (by decide) hxs)

theorem peak_eq_largest_sample_sampledThrice
    : samples afterThrice.trace = [1, 1, 0]
      ∧ afterThrice.shared.st.mon.infoThreads.peakBlocked
        = (largest (samples afterThrice.trace) : Nat) := by
  have hidle : afterThrice.shared.handler = none := by decide +kernel
  refine ⟨samples_sampledThrice,
    peak_eq_largest_sample ⟨_, _, reaches_sampledThrice⟩ hidle ?_⟩
  rw [samples_sampledThrice]
  decide

section Crowd

structure Blocks (s : Shared K) (regs : PtRegs K) (euid : UInt32) : Prop where
  table : s.st.sys.hackedSyscallTbl regs.origAx = .throttlingWrapper
  uid : checkUid K euid s.st.uids ≠ 0
  noToken : Settles.NoToken s

def Enters (i : Nat) (s : Shared K) (w : Wrapper K) (s' : Shared K) : Prop :=
  ∀ trace, ∃ w' trace',
    (throttling K).Solo i (fun _ => True) s (.wrapper w) trace s' (.wrapper w') trace'

theorem Enters.refl {i : Nat} {s : Shared K} {w : Wrapper K} : Enters i s w s :=
  fun _ => ⟨_, _, .refl⟩

theorem Enters.go {i : Nat} {s s₁ s' : Shared K} {w w₁ : Wrapper K} {ev : List (Event K)}
    (h : w.step (T := Task K) i .go s = some (s₁, w₁, ev)) (hnext : Enters i s₁ w₁ s')
    : Enters i s w s' := by
  intro trace
  obtain ⟨w', trace', hsolo⟩ := hnext (ev ++ trace)
  refine ⟨w', trace', .head .go trivial ?_ hsolo⟩
  simp only [throttling, Thread.step, h, Option.map_some]

theorem Enters.lookup {i : Nat} {s : Shared K} {w : Wrapper K} (hs : Settles.NoToken s)
    (hneed : ¬w.needMon = false)
    : Enters i s (w.goto .lookup) (s.setMon (Wrapper.addBlocked s.st.mon 1)) := by
  refine .go (if_neg hneed) ?_
  refine .go (if_neg hs.tokens) ?_
  refine .go (if_neg hs.on) ?_
  refine .go rfl ?_
  exact .refl

theorem Blocks.enters {s : Shared K} {regs : PtRegs K} {euid : UInt32} (h : Blocks s regs euid)
    (i : Nat) (comm : Comm)
    : Enters i s (.initial regs euid comm) (s.setMon (Wrapper.addBlocked s.st.mon 1)) := by
  have hdispatch : (Wrapper.initial regs euid comm).step (T := Task K) i .go s
      = some (s, (Wrapper.initial regs euid comm).goto .entry, []) := by
    simp only [Wrapper.step, Wrapper.initial, h.table]
  refine .go hdispatch ?_
  refine .go (if_neg h.noToken.on) ?_
  refine .go (if_pos h.uid) ?_
  exact .lookup h.noToken (by simp)

structure Crowd (n : Nat) (c : Cfg Platform.sample) : Prop where
  reachable : Reachable Platform.sample SyscallTable.sample c
  idle : c.shared.handler = none
  timer : ∃ expires, c.shared.st.mon.epochTimer = some expires
  blocks : Blocks c.shared sampleRegs 1000
  blocked : c.shared.st.mon.blockedThread = n
  peak : c.shared.st.mon.infoThreads.peakBlocked = 0
  fresh : ∀ i, n + 4 ≤ i → c.locals i = .idle

theorem Crowd.grow {n : Nat} {c : Cfg Platform.sample} (h : Crowd n c)
    : ∃ c', Crowd (n + 1) c' := by
  let i := n + 4
  obtain ⟨w, trace, hsolo⟩ := h.blocks.enters i (Comm.ofBytes []) c.trace
  have hstart : (throttling Platform.sample).Solo i (fun _ => True) c.shared .idle c.trace
      (c.shared.setMon (Wrapper.addBlocked c.shared.st.mon 1)) (.wrapper w) trace := by
    refine .head (.start (.syscall sampleRegs 1000 (Comm.ofBytes []))) trivial rfl ?_
    exact hsolo
  have hrun := hstart.run (c := c) rfl (h.fresh i (Nat.le_refl _)) rfl
  refine ⟨_, reachable_trans h.reachable hrun.reaches, h.idle, h.timer, ?_, ?_, h.peak, ?_⟩
  . exact ⟨h.blocks.table, h.blocks.uid, h.blocks.noToken.on, h.blocks.noToken.tokens⟩
  . show c.shared.st.mon.blockedThread + 1 = (n + 1 : Nat)
    rw [h.blocked, Nat.cast_succ]
  . intro j hj
    dsimp only
    rw [Function.update_of_ne (by omega)]
    exact h.fresh j (by omega)

def below (n : Nat) (_ : Cfg Platform.sample) : Lbl Platform.sample → Bool
  | .run i _ => i < n
  | .env _ => true

theorem isSome_fourCalls_below : (sampleRun (below 5) fourCalls).isSome := by
  decide

theorem Crowd.exists (n : Nat) : ∃ c, Crowd (n + 1) c := by
  induction n with
  | zero =>
    have hfresh : ∀ i, 5 ≤ i →
        ((sampleRun (below 5) fourCalls).get isSome_fourCalls_below).locals i = .idle := by
      intro i hi
      exact (System.run_exec_get isSome_fourCalls_below).locals fun _ _ => by simp [below, hi]
    refine ⟨_, reachable_sampleRun isSome_fourCalls_below, rfl, ⟨250, rfl⟩, ⟨rfl, ?_, ?_, ?_⟩, rfl,
      rfl, hfresh⟩
    . decide
    . decide
    . decide
  | succ n ih =>
    obtain ⟨c, hc⟩ := ih
    exact hc.grow

end Crowd

def fourBlocked : Cfg Platform.sample :=
  (sampleRun (fun _ _ => true) fourCalls).get isSome_fourCalls

/-- A signal wakes the blocked caller, and the first epoch ends up to its last step. -/
def signalled : Option (Cfg Platform.sample) :=
  (throttling Platform.sample).exec (fun _ _ => true) fourBlocked
    (.run 4 .signal :: .run 4 .go :: .env (.tick 250) :: .env .expire
      :: List.replicate 9 (.env .handler))

theorem isSome_signalled : signalled.isSome := by
  decide

theorem isSome_signalled_end
    : ((throttling Platform.sample).step (signalled.get isSome_signalled) (.env .handler)).isSome := by
  decide

theorem peak_negative
    : ∃ c, Reachable Platform.sample SyscallTable.sample c ∧ c.shared.handler = none
      ∧ c.shared.st.mon.infoThreads.peakBlocked = -2 ^ 31 := by
  obtain ⟨c, hc⟩ := Crowd.exists 2147483647
  obtain ⟨expires, htimer⟩ := hc.timer
  obtain ⟨c', hreach, _, hidle, hmon⟩ := epoch_sequential c hc.idle htimer
  refine ⟨c', reachable_trans hc.reachable hreach, hidle, ?_⟩
  have hon : (c.shared.st.mon.expireAt expires).isMonitorActive ≠ 0 := hc.blocks.noToken.on
  have hpeak := (Monitor.epochHandler_stats (K := Platform.sample) hon).2.1
  have hblocked : (c.shared.st.mon.expireAt expires).blockedUlong = 2147483648 := by
    show UInt64.ofInt c.shared.st.mon.blockedThread = 2147483648
    rw [hc.blocked]
    rfl
  have hexceeded : (c.shared.st.mon.expireAt expires).peakExceeded 2147483648 = true := by
    show decide (UInt64.ofInt c.shared.st.mon.infoThreads.peakBlocked < 2147483648) = true
    rw [hc.peak]
    decide
  rw [hblocked, hexceeded, if_pos rfl, ← hmon] at hpeak
  rw [hpeak]
  decide +kernel

/--
A caller blocks and is gone before the epoch ends: the peak stays 0. And a sample that is no `int`
makes it negative.
-/
theorem peak_misses_blocked
    : (∃ c c₁ c', Reachable Platform.sample SyscallTable.sample c ∧ c.shared.handler = none
        ∧ c.shared.st.mon.blockedThread = 1 ∧ (throttling Platform.sample).Reaches c c₁
        ∧ c₁.shared.handler = some .modTimer
        ∧ (throttling Platform.sample).step c₁ (.env .handler) = some c'
        ∧ c'.shared.st.mon.infoThreads.peakBlocked = 0)
      ∧ ∃ c, Reachable Platform.sample SyscallTable.sample c ∧ c.shared.handler = none
        ∧ c.shared.st.mon.infoThreads.peakBlocked = -2 ^ 31 := by
  refine ⟨⟨fourBlocked, signalled.get isSome_signalled, _, reachable_sampleRun isSome_fourCalls,
    rfl, rfl, (System.run_exec_get isSome_signalled).reaches, ?_,
    (Option.some_get isSome_signalled_end).symm, ?_⟩, peak_negative⟩
  . decide
  . decide

end Throttling

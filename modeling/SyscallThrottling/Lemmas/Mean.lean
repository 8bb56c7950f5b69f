import SyscallThrottling.Impl.Interface
import SyscallThrottling.Lemmas.Averages
import SyscallThrottling.Lemmas.Timer

/-!
This module contains the arithmetic mean of the blocked threads, which the interface computes from a
sum over the epochs and a time in milliseconds.
-/

namespace Throttling

open Interleaving

variable {K : Platform}

/-- As long as the monitor is on, the times are those of the load. -/
structure OnSince (now : Nat) (c : Cfg K) : Prop where
  startTime : c.shared.st.mon.infoThreads.startTime = UInt64.ofNat now
  elapsed : c.shared.st.mon.infoThreads.elapsed = 0
  unswitched : Unswitched c

structure Monitor.SameTimes (m m' : Monitor) : Prop where
  startTime : m'.infoThreads.startTime = m.infoThreads.startTime
  elapsed : m'.infoThreads.elapsed = m.infoThreads.elapsed

theorem Unswitched.sameTimes {c c' : Cfg K} (h : Unswitched c) (hon : MonitorOn c) {l : Lbl K}
    (hs : (throttling K).step c l = some c') (hon' : MonitorOn c')
    : c.shared.st.mon.SameTimes c'.shared.st.mon := by
  cases l with
  | env e =>
    obtain ⟨s, ev, heq, rfl⟩ := System.step_env hs
    dsimp only
    rcases Shared.envStep_cases heq with ⟨_, rfl, _⟩ | ⟨_, _, _, _, rfl, _⟩ | ⟨pc, _, hs⟩
      | ⟨newMax, rfl, _⟩ | ⟨_, _, _, _, rfl, _⟩
    . exact ⟨rfl, rfl⟩
    . exact ⟨rfl, rfl⟩
    . rw [(HandlerPc.step_frame hs).mon]
      exact ⟨rfl, rfl⟩
    . unfold Monitor.setMaxSyscall
      split <;> exact ⟨rfl, rfl⟩
    . exact ⟨rfl, rfl⟩
  | run i ch =>
    have hi := h i
    obtain ⟨s, t, ev, heq, rfl⟩ := System.step_run hs
    dsimp only
    rcases Thread.step_cases heq with ⟨_, _, rfl, _⟩ | ⟨_, _, _, _, h'⟩ | ⟨_, _, hpc, _, h', _⟩
      | ⟨_, _, hpc, _, h', _⟩ | ⟨_, _, _, _, h', _⟩ | ⟨_, _, _, _, h', _⟩
    . exact ⟨rfl, rfl⟩
    . rw [(Wrapper.step_spec h').1.mon]
      exact ⟨rfl, rfl⟩
    . rw [hpc] at hi
      rw [(SwitchOnPc.step_unswitched hi.1 hon h').2]
      exact ⟨rfl, rfl⟩
    . rw [hpc] at hi
      rw [(SwitchOffPc.step_unswitched hi.2 h' hon').2]
      exact ⟨rfl, rfl⟩
    . rw [(Register.step_frame h').1.mon]
      exact ⟨rfl, rfl⟩
    . rw [(Deregister.step_frame h').1.mon]
      exact ⟨rfl, rfl⟩

namespace OnSince

variable {now : Nat} {c c' : Cfg K}

theorem step (h : OnSince now c) (hon : MonitorOn c) {l : Lbl K}
    (hs : (throttling K).step c l = some c') (hon' : MonitorOn c') : OnSince now c' := by
  have hsame := h.unswitched.sameTimes hon hs hon'
  exact ⟨hsame.startTime.trans h.startTime, hsame.elapsed.trans h.elapsed,
    h.unswitched.step hon hs hon'⟩

theorem of_run {T : SyscallTable K} {stats : Ptr → SyscallStats}
    (h : (throttling K).Run (fun c _ => MonitorOn c) (loaded K T stats now) c) (hon : MonitorOn c)
    : OnSince now c := by
  refine h.invariant (I := fun c => MonitorOn c → OnSince now c) ?_ ?_ hon
  . exact fun _ => ⟨rfl, rfl, fun _ => ⟨rfl, rfl⟩⟩
  . exact fun c l c' hc hg hs hon' => (hc hg).step hg hs hon'

end OnSince

theorem elapsedJiffies_of_onSince {now k : Nat} {c : Cfg K} (h : OnSince now c) (hon : MonitorOn c)
    (hclock : c.shared.st.mon.jiffies = now + k * K.HZ)
    : c.shared.st.mon.elapsedJiffies = UInt64.ofNat (k * K.HZ) := by
  have hne : c.shared.st.mon.isMonitorActive ≠ 0 := hon
  rw [Monitor.elapsedJiffies, if_pos hne, h.elapsed, h.startTime, Monitor.jiffiesUlong, hclock,
    UInt64.ofNat_add, UInt64.add_comm (UInt64.ofNat now), UInt64.add_sub_cancel, UInt64.zero_add]

theorem ioctl_threadStats {env : Env} {euid : UInt32} {arg : ThreadStatsCr} {s : State K}
    (harg : arg.type = 0) (h : ¬(throttlingIoctl env euid (.getThreadStats arg) s).ret < 0)
    : ∃ cr, (throttlingIoctl env euid (.getThreadStats arg) s).out = [.threadStats cr]
      ∧ cr.type = 0 ∧ cr.sumBlocked = s.mon.infoThreads.sumBlocked
      ∧ cr.elapsed = (K.jiffiesToMsecs s.mon.elapsedJiffies).toUInt64 := by
  have hbad : ¬(arg.type < 0 ∨ arg.type > 1) := by omega
  have htype : arg.type ≠ 1 := by omega
  simp only [throttlingIoctl, queryIoctl] at h ⊢
  by_cases hfrom : env.copyFromUser = false
  . rw [if_pos hfrom] at h
    exact absurd (show -EFAULT < 0 by decide) h
  . rw [if_neg hfrom, if_neg hbad] at h ⊢
    simp only [getThreadStats, if_neg htype] at h ⊢
    generalize s.heap.kmalloc (env.kmalloc 0 40) 40 = r at h ⊢
    obtain ⟨p, heap⟩ := r
    cases p with
    | none => exact absurd (show -ENOMEM < 0 by decide) h
    | some toRet =>
      dsimp only at h ⊢
      generalize hcr : ThreadStatsCr.mk _ _ _ _ _ _ _ = cr at h ⊢
      rcases copyOut_cases env 0 (.threadStats cr) { s with heap } with ⟨_, hcopy⟩ | ⟨_, hcopy⟩
      . rw [hcopy]
        subst hcr
        exact ⟨_, rfl, rfl, rfl, rfl⟩
      . rw [hcopy] at h
        exact absurd (show -EFAULT < 0 by decide) h

theorem threadStats_arithmetic {env : Env} {euid : UInt32} {s : State K} {sum : UInt64}
    {mean : Option ℚ} {peak : Int} (h : threadStats env euid 0 s = .arithmetic sum mean peak)
    : sum = s.mon.infoThreads.sumBlocked
      ∧ mean = quotient sum (K.jiffiesToMsecs s.mon.elapsedJiffies).toUInt64 := by
  simp only [threadStats] at h
  split at h
  . contradiction
  . next hret =>
    obtain ⟨cr, hout, htype, hsum, helapsed⟩ := ioctl_threadStats rfl hret
    rw [hout, readThreadStats, if_pos htype] at h
    cases h
    exact ⟨hsum, by rw [helapsed]⟩

theorem quotient_eq_div {a b : UInt64} {q d : ℚ} (hb : b.toNat ≠ 0)
    : quotient a b = some (q / d) ↔ (a.toNat : ℚ) / b.toNat = q / d := by
  have hne : b ≠ 0 := by
    rintro rfl
    exact hb rfl
  rw [quotient, if_neg hne, Option.some.injEq]

theorem eq_zero_of_scaled {r s k : Nat} (hk : 0 < k) (hle : r ≤ s) (h : r * k = s * (1000 * k))
    : s = 0 := by
  have hscaled : r * k = s * 1000 * k := by rw [h, Nat.mul_assoc]
  have hcancel := Nat.eq_of_mul_eq_mul_right hk hscaled
  omega

/--
The sum is per epoch and the time in milliseconds, so that the quotient is a thousandth of the mean.
-/
theorem shown_mean_iff {T : SyscallTable K} {stats : Ptr → SyscallStats} {now k : Nat} {c : Cfg K}
    (hrun : (throttling K).Run (fun c _ => MonitorOn c) (loaded K T stats now) c)
    (hon : MonitorOn c) (hidle : c.shared.handler = none) (hk : 0 < k)
    (hlen : (samples c.trace).length = k) (hclock : c.shared.st.mon.jiffies = now + k * K.HZ)
    (hexact : (K.jiffiesToMsecs (UInt64.ofNat (k * K.HZ))).toNat = 1000 * k) {env : Env}
    {euid : UInt32} {sum : UInt64} {mean : Option ℚ} {peak : Int}
    (hshown : threadStats env euid 0 c.shared.st = .arithmetic sum mean peak)
    : mean = some (arithMean (samples c.trace)) ↔ ∀ x ∈ samples c.trace, x = 0 := by
  obtain ⟨hsum, rfl⟩ := threadStats_arithmetic hshown
  have hrec := (Recording.of_reachable ⟨stats, now, hrun.reaches⟩).sumBlocked
  rw [added_of_idle hidle, ← hsum] at hrec
  have hmsecs : (K.jiffiesToMsecs c.shared.st.mon.elapsedJiffies).toUInt64.toNat = 1000 * k := by
    rw [UInt32.toNat_toUInt64, elapsedJiffies_of_onSince (OnSince.of_run hrun hon) hon hclock,
      hexact]
  have hword : sum.toNat = (samples c.trace).sum % 2 ^ 64 := by
    rw [hrec, UInt64.toNat_ofNat']
  rw [arithMean, quotient_eq_div (by omega), hmsecs, hword, hlen,
    ← List.sum_eq_zero_iff_forall_eq_nat]
  have hk' : (0 : ℚ) < k := by exact_mod_cast hk
  have hscale : ((1000 * k : Nat) : ℚ) ≠ 0 := by positivity
  rw [div_eq_div_iff hscale hk'.ne']
  constructor
  . intro heq
    refine eq_zero_of_scaled hk (Nat.mod_le _ (2 ^ 64)) ?_
    exact_mod_cast heq
  . intro h0
    simp [h0]

def quietEpoch : List (Lbl Platform.sample) :=
  .env (.tick 250) :: .env .expire :: List.replicate 10 (.env .handler)

theorem isSome_quietEpoch : (sampleRun (fun c _ => MonitorOn c) quietEpoch).isSome := by
  decide

def afterQuiet : Cfg Platform.sample :=
  (sampleRun (fun c _ => MonitorOn c) quietEpoch).get isSome_quietEpoch

theorem run_quietEpoch
    : (throttling Platform.sample).Run (fun c _ => MonitorOn c) sampleLoaded afterQuiet :=
  (System.run_exec_get isSome_quietEpoch).mono (by simp)

theorem shown_mean_quiet
    : quotient 0 1000 = some (arithMean (samples afterQuiet.trace)) :=
  (shown_mean_iff (k := 1) (T := SyscallTable.sample) run_quietEpoch (by decide) (by decide)
    (by decide) (by decide) (by decide) (by decide)
    (show threadStats Env.sample 0 0 afterQuiet.shared.st = .arithmetic 0 (quotient 0 1000) 0 from
      rfl)).mpr (by decide)

theorem isSome_sampledOnce_on : (sampleRun (fun c _ => MonitorOn c) sampledOnce).isSome := by
  decide

def afterOnce : Cfg Platform.sample :=
  (sampleRun (fun c _ => MonitorOn c) sampledOnce).get isSome_sampledOnce_on

theorem run_sampledOnce
    : (throttling Platform.sample).Run (fun c _ => MonitorOn c) sampleLoaded afterOnce :=
  (System.run_exec_get isSome_sampledOnce_on).mono (by simp)

theorem threadStats_granted (euid : UInt32) (s : State K)
    : threadStats Env.sample euid 0 s = .arithmetic s.mon.infoThreads.sumBlocked
      (quotient s.mon.infoThreads.sumBlocked
        (K.jiffiesToMsecs s.mon.elapsedJiffies).toUInt64) s.mon.infoThreads.peakBlocked :=
  rfl

theorem shown_mean_wrong
    : ∃ c, (throttling Platform.sample).Run (fun c _ => MonitorOn c) sampleLoaded c ∧ MonitorOn c
      ∧ c.shared.handler = none ∧ samples c.trace = [1]
      ∧ c.shared.st.mon.jiffies = Platform.sample.HZ
      ∧ (Platform.sample.jiffiesToMsecs (UInt64.ofNat Platform.sample.HZ)).toNat = 1000
      ∧ threadStats Env.sample 0 0 c.shared.st = .arithmetic 1 (some (1 / 1000)) 1
      ∧ arithMean [1] = 1 := by
  have hsum : afterOnce.shared.st.mon.infoThreads.sumBlocked = 1 := by decide
  have hpeak : afterOnce.shared.st.mon.infoThreads.peakBlocked = 1 := by decide
  have hmsecs : (Platform.sample.jiffiesToMsecs afterOnce.shared.st.mon.elapsedJiffies).toUInt64
      = 1000 := by decide
  have hshown := threadStats_granted 0 afterOnce.shared.st
  have hquotient : quotient 1 1000 = some (1 / 1000) := by
    have h1 : (1 : UInt64).toNat = 1 := rfl
    have h1000 : (1000 : UInt64).toNat = 1000 := rfl
    rw [quotient, if_neg (by decide), h1, h1000]
    norm_num
  rw [hsum, hmsecs, hpeak, hquotient] at hshown
  have hmean : arithMean [1] = 1 := by norm_num [arithMean]
  exact ⟨afterOnce, run_sampledOnce, by decide, by decide, by decide, by decide, by decide, hshown,
    hmean⟩

end Throttling

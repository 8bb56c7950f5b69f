import SyscallThrottling.Impl.Mod
import SyscallThrottling.Lib.Stopwatch

/-!
This module contains what `info_threads.elapsed` and `start_time` record of the intervals in which
the monitor was on.
-/

namespace Throttling

variable {K : Platform}

structure SwitchCall where
  jiffies : UInt64
  on : Bool
  deriving DecidableEq

namespace Monitor

def atTime (m : Monitor) (now : UInt64) : Monitor :=
  { m with jiffies := now.toNat }

def switchAt (K : Platform) (m : Monitor) (call : SwitchCall) : Monitor :=
  if call.on then
    ((m.atTime call.jiffies).switchOnMonitor K).2
  else
    (m.atTime call.jiffies).switchOffMonitor.2

/--
The clock never goes back, so the start mark is not in the future; and what is recorded of the last
interval fits in front of it.
-/
structure Tracks (m : Monitor) (w : Stopwatch) (now : Nat) : Prop where
  elapsed : m.infoThreads.elapsed.toNat = w.last
  position : (∃ s : UInt64, w.running = some s.toNat ∧ m.isMonitorActive = 1
      ∧ m.infoThreads.startTime = s ∧ w.last ≤ s.toNat ∧ s.toNat ≤ now)
    ∨ (w.running = none ∧ m.isMonitorActive = 0 ∧ w.last ≤ now)

@[simp]
theorem jiffiesUlong_atTime (m : Monitor) (now : UInt64) : (m.atTime now).jiffiesUlong = now :=
  UInt64.ofNat_toNat

theorem tracks_loaded (T : SyscallTable K) (stats : Ptr → SyscallStats) (t : UInt64)
    : (State.loaded K T stats t.toNat).mon.Tracks (.start t.toNat) t.toNat where
  elapsed := rfl
  position := by
    left
    exact ⟨t, rfl, rfl, UInt64.ofNat_toNat, Nat.zero_le _, Nat.le_refl _⟩

namespace Tracks

variable {m : Monitor} {w : Stopwatch} {past : Nat}

theorem switchAt (h : m.Tracks w past) (call : SwitchCall) (hle : past ≤ call.jiffies.toNat)
    : (m.switchAt K call).Tracks (w.switch call.jiffies.toNat call.on) call.jiffies.toNat := by
  obtain ⟨t, on⟩ := call
  dsimp only at hle ⊢
  rcases h.position with ⟨s, hrun, hon, hstart, hlast, hs⟩ | ⟨hrun, hoff, hlast⟩
  . cases on with
    | true =>
      have hm : m.switchAt K ⟨t, true⟩ = m.atTime t := by
        simp [Monitor.switchAt, switchOnMonitor, atTime, hon]
      have hw : w.switch t.toNat true = w := by simp [Stopwatch.switch, hrun]
      rw [hm, hw]
      exact ⟨h.elapsed, .inl ⟨s, hrun, hon, hstart, hlast, by omega⟩⟩
    | false =>
      have helapsed : (m.switchAt K ⟨t, false⟩).infoThreads.elapsed = t - s := by
        simp only [Monitor.switchAt, switchOffMonitor, atTime, hon, wakeUp, jiffiesUlong, hstart,
          setElapsed, coreCleanup, timerDeleteSync, if_true, Bool.false_eq_true, if_false,
          UInt64.ofNat_toNat]
      refine ⟨?_, .inr ⟨?_, ?_, ?_⟩⟩
      . rw [helapsed, Stopwatch.last_switch_off hrun]
        apply UInt64.toNat_sub_of_le
        rw [UInt64.le_iff_toNat_le]
        omega
      . simp [Stopwatch.switch, hrun]
      . simp [Monitor.switchAt, switchOffMonitor, atTime, hon, wakeUp, setElapsed, coreCleanup,
          timerDeleteSync]
      . rw [Stopwatch.last_switch_off hrun]
        omega
  . cases on with
    | true =>
      have hlast' : (w.switch t.toNat true).last = w.last := by
        simp [Stopwatch.switch, hrun, Stopwatch.last, Stopwatch.lengths]
      refine ⟨?_, .inl ⟨t, ?_, ?_, ?_, ?_, Nat.le_refl _⟩⟩
      . rw [hlast', ← h.elapsed]
        simp [Monitor.switchAt, switchOnMonitor, atTime, hoff, coreSetup, timerSetup, modTimer]
      . simp [Stopwatch.switch, hrun]
      . simp [Monitor.switchAt, switchOnMonitor, atTime, hoff, coreSetup, timerSetup, modTimer]
      . simp [Monitor.switchAt, switchOnMonitor, atTime, hoff, coreSetup, timerSetup, modTimer,
          jiffiesUlong]
      . rw [hlast']
        omega
    | false =>
      have hm : m.switchAt K ⟨t, false⟩ = m.atTime t := by
        simp [Monitor.switchAt, switchOffMonitor, atTime, hoff]
      have hw : w.switch t.toNat false = w := by simp [Stopwatch.switch, hrun]
      rw [hm, hw]
      exact ⟨h.elapsed, .inr ⟨hrun, hoff, by omega⟩⟩

theorem elapsedJiffies (h : m.Tracks w past) {now : UInt64} (hle : past ≤ now.toNat)
    : (m.atTime now).elapsedJiffies.toNat = w.last + w.current now.toNat := by
  have helapsed := h.elapsed
  have hnow := now.toNat_lt
  rcases h.position with ⟨s, hrun, hon, hstart, hlast, hs⟩ | ⟨hrun, hoff, hlast⟩
  . have hsub : (now - s).toNat = now.toNat - s.toNat := by
      apply UInt64.toNat_sub_of_le
      rw [UInt64.le_iff_toNat_le]
      omega
    have hq : (m.atTime now).elapsedJiffies = m.infoThreads.elapsed + (now - s) := by
      rw [Monitor.elapsedJiffies, jiffiesUlong_atTime]
      simp [atTime, hon, hstart]
    rw [hq, UInt64.toNat_add, hsub, helapsed, Stopwatch.current, hrun]
    apply Nat.mod_eq_of_lt
    omega
  . simp [Monitor.elapsedJiffies, atTime, hoff, helapsed, Stopwatch.current, hrun]

end Tracks

def switches (K : Platform) (m : Monitor) (calls : List SwitchCall) : Monitor :=
  calls.foldl (switchAt K) m

end Monitor

def onTime (t0 : UInt64) (calls : List SwitchCall) : Stopwatch :=
  calls.foldl (fun w call => w.switch call.jiffies.toNat call.on) (.start t0.toNat)

theorem Monitor.Tracks.switches {m : Monitor} {w : Stopwatch} {past now : UInt64}
    {calls : List SwitchCall} (h : m.Tracks w past.toNat)
    (hchain : (past :: (calls.map SwitchCall.jiffies ++ [now])).IsChain (· ≤ ·))
    : ∃ past' : UInt64, past' ≤ now
      ∧ (m.switches K calls).Tracks
          (calls.foldl (fun w call => w.switch call.jiffies.toNat call.on) w) past'.toNat := by
  induction calls generalizing m w past with
  | nil => exact ⟨past, by simpa using hchain, h⟩
  | cons call calls ih =>
    rw [List.map_cons, List.cons_append, List.isChain_cons_cons] at hchain
    exact ih (h.switchAt call (UInt64.le_iff_toNat_le.mp hchain.1)) hchain.2

/--
Only the last completed interval is recorded, so the query is right as long as the earlier ones are
empty.
-/
theorem elapsed_eq_onTime_iff (T : SyscallTable K) (stats : Ptr → SyscallStats) (t0 now : UInt64)
    (calls : List SwitchCall)
    (hchain : (t0 :: (calls.map SwitchCall.jiffies ++ [now])).IsChain (· ≤ ·))
    : (((State.loaded K T stats t0.toNat).mon.switches K calls).atTime now).elapsedJiffies.toNat
          = (onTime t0 calls).total now.toNat
        ↔ ∀ d ∈ (onTime t0 calls).earlier, d = 0 := by
  obtain ⟨past, hle, h⟩ := (Monitor.tracks_loaded T stats t0).switches (K := K) hchain
  -- both sides hold the last interval and the current one
  rw [h.elapsedJiffies (UInt64.le_iff_toNat_le.mp hle), Stopwatch.total_eq, onTime,
    ← List.sum_eq_zero_iff_forall_eq_nat]
  omega

theorem elapsed_eq_onTime_once
    : let calls : List SwitchCall := [⟨10, false⟩, ⟨20, true⟩]
      let loaded := State.loaded Platform.sample SyscallTable.sample (fun _ => .zero) 0
      ((loaded.mon.switches Platform.sample calls).atTime 25).elapsedJiffies.toNat
        = (onTime 0 calls).total 25 :=
  (elapsed_eq_onTime_iff SyscallTable.sample (fun _ => .zero) 0 25 [⟨10, false⟩, ⟨20, true⟩]
    (by decide)).mpr (by decide)

theorem elapsed_loses_interval
    : let calls : List SwitchCall := [⟨10, false⟩, ⟨20, true⟩, ⟨25, false⟩]
      let loaded := State.loaded Platform.sample SyscallTable.sample (fun _ => .zero) 0
      ((0 : UInt64) :: (calls.map SwitchCall.jiffies ++ [30])).IsChain (· ≤ ·)
        ∧ ((loaded.mon.switches Platform.sample calls).atTime 30).elapsedJiffies.toNat = 5
        ∧ (onTime 0 calls).total 30 = 15 := by
  decide

end Throttling

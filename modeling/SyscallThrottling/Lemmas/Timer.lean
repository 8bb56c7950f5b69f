import SyscallThrottling.Lemmas.Tokens

/-!
This module contains the agreement of `is_monitor_active` with the epoch timer when calls that
switch the monitor overlap with each other and with the handler.
-/

namespace Throttling

open Interleaving

variable {K : Platform}

def SwitchOnPc.arming : SwitchOnPc → Bool
  | .cmpxchg => false
  | .startTime => true
  | .timerSetup => true
  | .modTimer => true
  | .done _ => false

def SwitchOffPc.deleting : SwitchOffPc → Bool
  | .cmpxchg => false
  | .wake => true
  | .readStart => true
  | .setElapsed _ => true
  | .timerDelete => true
  | .done _ => false

namespace Thread

def arming : Thread K → Bool
  | .switchOn pc => pc.arming
  | _ => false

def deleting : Thread K → Bool
  | .switchOff pc => pc.deleting
  | _ => false

def switching : Thread K → Bool
  | .switchOn (.done _) => false
  | .switchOn _ => true
  | .switchOff (.done _) => false
  | .switchOff _ => true
  | _ => false

end Thread

def MonitorOn (c : Cfg K) : Prop :=
  c.shared.st.mon.isMonitorActive ≠ 0

instance (c : Cfg K) : Decidable (MonitorOn c) :=
  inferInstanceAs (Decidable (_ ≠ _))

def Arming (c : Cfg K) : Prop :=
  ∃ i, (c.locals i).arming = true

def Deleting (c : Cfg K) : Prop :=
  ∃ i, (c.locals i).deleting = true

/--
The timer is deleted while the monitor is off, or while a call that switches it on has yet to arm
the timer; and it is armed while the monitor is on, or while a call that switches it off has yet to
delete the timer.
-/
def InOrder (c : Cfg K) : Lbl K → Prop
  | .env _ => True
  | .run i _ =>
    (c.locals i = .switchOff .timerDelete → c.shared.st.mon.isMonitorActive = 0 ∨ Arming c)
      ∧ (c.locals i = .switchOn .modTimer → c.shared.st.mon.isMonitorActive = 1 ∨ Deleting c)

def Quiescent (c : Cfg K) : Prop :=
  c.shared.handler = none ∧ ∀ i, (c.locals i).switching = false

structure TimerInv (c : Cfg K) : Prop where
  flag : c.shared.st.mon.isMonitorActive = 0 ∨ c.shared.st.mon.isMonitorActive = 1
  on : c.shared.st.mon.isMonitorActive = 1 →
    c.shared.st.mon.epochTimer.isSome ∨ c.shared.handler.isSome ∨ Arming c
  off : c.shared.st.mon.isMonitorActive = 0 →
    Deleting c ∨ (c.shared.st.mon.epochTimer = none
      ∧ (c.shared.handler = none ∨ c.shared.handler = some .check))

section Pending

variable {c c' : Cfg K} {i : Nat} {t : Thread K}

theorem Arming.update (h : Arming c) (hlocals : c'.locals = Function.update c.locals i t)
    (hi : (c.locals i).arming = true → t.arming = true) : Arming c' :=
  exists_update (P := fun t : Thread K => t.arming = true) h hlocals hi

theorem Deleting.update (h : Deleting c) (hlocals : c'.locals = Function.update c.locals i t)
    (hi : (c.locals i).deleting = true → t.deleting = true) : Deleting c' :=
  exists_update (P := fun t : Thread K => t.deleting = true) h hlocals hi

end Pending

theorem HandlerPc.step_running {s s' : Shared K} {pc : HandlerPc} {ev : List (Event K)}
    (hs : pc.step s = (s', ev)) (hcheck : pc ≠ .check) (hmod : pc ≠ .modTimer)
    : s'.st.mon.isMonitorActive = s.st.mon.isMonitorActive
      ∧ s'.st.mon.epochTimer = s.st.mon.epochTimer ∧ s'.handler.isSome := by
  cases pc with
  | check => exact absurd rfl hcheck
  | modTimer => exact absurd rfl hmod
  | readPeak max currBlocked =>
    simp only [step] at hs
    split at hs <;> cases hs <;> exact ⟨rfl, rfl, rfl⟩
  | setPeak max currBlocked =>
    obtain ⟨info, hinfo⟩ := s.st.mon.setPeakBlocked_eq currBlocked
    rw [step, hinfo] at hs
    cases hs
    exact ⟨rfl, rfl, rfl⟩
  | _ =>
    cases hs
    exact ⟨rfl, rfl, rfl⟩

namespace TimerInv

variable {c c' : Cfg K}

theorem loaded (T : SyscallTable K) (stats : Ptr → SyscallStats) (now : Nat)
    : TimerInv (loaded K T stats now) where
  flag := .inr rfl
  on _ := .inl rfl
  off h := by cases h

theorem frame (h : TimerInv c)
    (hflag : c'.shared.st.mon.isMonitorActive = c.shared.st.mon.isMonitorActive)
    (htimer : c'.shared.st.mon.epochTimer = c.shared.st.mon.epochTimer)
    (hhandler : c'.shared.handler = c.shared.handler) (harming : Arming c → Arming c')
    (hdeleting : Deleting c → Deleting c') : TimerInv c' := by
  constructor
  . rw [hflag]
    exact h.flag
  . rw [hflag, htimer, hhandler]
    intro hon
    exact (h.on hon).imp_right (Or.imp_right harming)
  . rw [hflag, htimer, hhandler]
    intro hoff
    exact (h.off hoff).imp_left hdeleting

theorem handlerStep (h : TimerInv c) {pc : HandlerPc} (hpc : c.shared.handler = some pc)
    {s : Shared K} {ev : List (Event K)} (hs : pc.step c.shared = (s, ev))
    : TimerInv { c with shared := s, trace := ev ++ c.trace } := by
  obtain ⟨hflag, hon, hoff⟩ := h
  -- a handler that has seen the monitor on is waited for
  have hdel : pc ≠ .check → c.shared.st.mon.isMonitorActive = 0 → Deleting c := by
    intro hne h0
    rcases hoff h0 with hd | ⟨_, hn | hc⟩
    . exact hd
    . rw [hpc] at hn
      contradiction
    . rw [hpc, Option.some.injEq] at hc
      exact absurd hc hne
  cases pc with
  | check =>
    simp only [HandlerPc.step] at hs
    split at hs
    . next h0 =>
      cases hs
      refine ⟨hflag, ?_, ?_⟩
      . intro h1
        have : (0 : Int) = 1 := h0.symm.trans h1
        contradiction
      . intro _
        rcases hoff h0 with hd | ⟨ht, _⟩
        . exact .inl hd
        . exact .inr ⟨ht, .inl rfl⟩
    . next hne =>
      cases hs
      exact ⟨hflag, fun _ => .inr (.inl rfl), fun h0 => absurd h0 hne⟩
  | modTimer =>
    cases hs
    exact ⟨hflag, fun _ => .inl rfl, fun h0 => .inl (hdel (by simp) h0)⟩
  | _ =>
    obtain ⟨hf, ht, hh⟩ := HandlerPc.step_running hs (by simp) (by simp)
    refine ⟨?_, fun _ => .inr (.inl hh), ?_⟩
    . dsimp only
      rw [hf]
      exact hflag
    . dsimp only
      rw [hf]
      exact fun h0 => .inl (hdel (by simp) h0)

theorem envStep (h : TimerInv c) {e : EnvStep} {s : Shared K} {ev : List (Event K)}
    (hs : c.shared.envStep e = some (s, ev))
    : TimerInv { c with shared := s, trace := ev ++ c.trace } := by
  rcases Shared.envStep_cases hs with ⟨d, rfl, rfl⟩ | ⟨_, htimer, _, _, rfl, rfl⟩ | ⟨pc, hpc, hs⟩
    | ⟨newMax, rfl, rfl⟩ | ⟨_, _, _, _, rfl, rfl⟩
  . exact h.frame rfl rfl rfl id id
  . refine ⟨h.flag, fun _ => .inr (.inl rfl), ?_⟩
    intro h0
    rcases h.off h0 with hd | ⟨ht, _⟩
    . exact .inl hd
    . simp [htimer] at ht
  . exact h.handlerStep hpc hs
  . unfold Monitor.setMaxSyscall
    split <;> exact h.frame rfl rfl rfl id id
  . exact h.frame rfl rfl rfl id id

section Thread

variable {i : Nat} {s : Shared K} {ev : List (Event K)}

theorem thread_frame (h : TimerInv c) {t : Thread K}
    (hmon : s.st.mon.isMonitorActive = c.shared.st.mon.isMonitorActive
      ∧ s.st.mon.epochTimer = c.shared.st.mon.epochTimer) (hhandler : s.handler = c.shared.handler)
    (harming : (c.locals i).arming = true → t.arming = true)
    (hdeleting : (c.locals i).deleting = true → t.deleting = true)
    : TimerInv ⟨s, Function.update c.locals i t, ev ++ c.trace⟩ :=
  h.frame hmon.1 hmon.2 hhandler (fun ha => ha.update rfl harming)
    (fun hd => hd.update rfl hdeleting)

theorem switchOnStep (h : TimerInv c) {pc pc' : SwitchOnPc} (hpc : c.locals i = .switchOn pc)
    (hg : pc = .modTimer → c.shared.st.mon.isMonitorActive = 1 ∨ Deleting c)
    (hs : pc.step c.shared = some (s, pc'))
    : TimerInv ⟨s, Function.update c.locals i (.switchOn pc'), ev ++ c.trace⟩ := by
  have hdel : ∀ {s : Shared K} {ev : List (Event K)}, Deleting c →
      Deleting ⟨s, Function.update c.locals i (.switchOn pc'), ev ++ c.trace⟩ := by
    intro s ev hd
    exact hd.update rfl (by simp [hpc, Thread.deleting])
  have harm : ∀ {s : Shared K} {ev : List (Event K)}, pc'.arming = true →
      Arming ⟨s, Function.update c.locals i (.switchOn pc'), ev ++ c.trace⟩ := by
    intro s ev ha
    exact ⟨i, by simpa [Thread.arming] using ha⟩
  cases pc with
  | cmpxchg =>
    simp only [SwitchOnPc.step] at hs
    split at hs
    . cases hs
      exact ⟨.inr rfl, fun _ => .inr (.inr (harm rfl)), fun h0 => absurd h0 Int.one_ne_zero⟩
    . cases hs
      exact h.thread_frame ⟨rfl, rfl⟩ rfl (by simp [hpc, Thread.arming, SwitchOnPc.arming])
        (by simp [hpc, Thread.deleting])
  | startTime =>
    cases hs
    exact h.thread_frame ⟨rfl, rfl⟩ rfl (fun _ => rfl) (by simp [hpc, Thread.deleting])
  | timerSetup =>
    cases hs
    exact h.thread_frame ⟨rfl, rfl⟩ rfl (fun _ => rfl) (by simp [hpc, Thread.deleting])
  | modTimer =>
    cases hs
    refine ⟨h.flag, fun _ => .inl rfl, ?_⟩
    intro h0
    rcases hg rfl with h1 | hd
    . have : (0 : Int) = 1 := Eq.trans (Eq.symm h0) h1
      contradiction
    . exact .inl (hdel hd)
  | done ret => cases hs

theorem switchOffStep (h : TimerInv c) {pc pc' : SwitchOffPc} (hpc : c.locals i = .switchOff pc)
    (hg : pc = .timerDelete → c.shared.st.mon.isMonitorActive = 0 ∨ Arming c)
    (hs : pc.step c.shared = some (s, pc'))
    : TimerInv ⟨s, Function.update c.locals i (.switchOff pc'), ev ++ c.trace⟩ := by
  have harm : ∀ {s : Shared K} {ev : List (Event K)}, Arming c →
      Arming ⟨s, Function.update c.locals i (.switchOff pc'), ev ++ c.trace⟩ := by
    intro s ev ha
    exact ha.update rfl (by simp [hpc, Thread.arming])
  cases pc with
  | cmpxchg =>
    simp only [SwitchOffPc.step] at hs
    split at hs
    . cases hs
      refine ⟨.inl rfl, fun h1 => absurd h1.symm Int.one_ne_zero, fun _ => .inl ⟨i, ?_⟩⟩
      simp [Thread.deleting, SwitchOffPc.deleting]
    . cases hs
      exact h.thread_frame ⟨rfl, rfl⟩ rfl (by simp [hpc, Thread.arming])
        (by simp [hpc, Thread.deleting, SwitchOffPc.deleting])
  | wake =>
    cases hs
    exact h.thread_frame ⟨rfl, rfl⟩ rfl (by simp [hpc, Thread.arming]) (fun _ => rfl)
  | readStart =>
    cases hs
    exact h.thread_frame ⟨rfl, rfl⟩ rfl (by simp [hpc, Thread.arming]) (fun _ => rfl)
  | setElapsed temp =>
    cases hs
    exact h.thread_frame ⟨rfl, rfl⟩ rfl (by simp [hpc, Thread.arming]) (fun _ => rfl)
  | timerDelete =>
    simp only [SwitchOffPc.step] at hs
    split at hs
    . next hhandler =>
      cases hs
      refine ⟨h.flag, ?_, fun _ => .inr ⟨rfl, .inl hhandler⟩⟩
      -- switched on again: the call that did so has yet to arm the timer
      intro h1
      rcases hg rfl with h0 | ha
      . have : (0 : Int) = 1 := Eq.trans (Eq.symm h0) h1
        contradiction
      . exact .inr (.inr (harm ha))
    . contradiction
  | done ret => cases hs

theorem step (h : TimerInv c) {l : Lbl K} (hg : InOrder c l)
    (hs : (throttling K).step c l = some c') : TimerInv c' := by
  cases l with
  | env e =>
    obtain ⟨s, ev, heq, rfl⟩ := System.step_env hs
    exact h.envStep heq
  | run i ch =>
    obtain ⟨s, t, ev, heq, rfl⟩ := System.step_run hs
    rcases Thread.step_cases heq with ⟨hi, rfl, rfl, _⟩ | ⟨w, w', hi, rfl, h'⟩
      | ⟨pc, pc', hi, rfl, h', rfl⟩ | ⟨pc, pc', hi, rfl, h', rfl⟩ | ⟨f, f', hi, rfl, h', rfl⟩
      | ⟨f, f', hi, rfl, h', rfl⟩
    . exact h.thread_frame ⟨rfl, rfl⟩ rfl (by simp [hi, Thread.arming])
        (by simp [hi, Thread.deleting])
    . have hframe := (Wrapper.step_spec h').1
      exact h.thread_frame ⟨by rw [hframe.mon], by rw [hframe.mon]⟩ hframe.handler
        (by simp [hi, Thread.arming]) (by simp [hi, Thread.deleting])
    . exact h.switchOnStep hi (fun hpc => hg.2 (hpc ▸ hi)) h'
    . exact h.switchOffStep hi (fun hpc => hg.1 (hpc ▸ hi)) h'
    . have hframe := (Register.step_frame h').1
      exact h.thread_frame ⟨by rw [hframe.mon], by rw [hframe.mon]⟩ hframe.handler
        (by simp [hi, Thread.arming]) (by simp [hi, Thread.deleting])
    . have hframe := (Deregister.step_frame h').1
      exact h.thread_frame ⟨by rw [hframe.mon], by rw [hframe.mon]⟩ hframe.handler
        (by simp [hi, Thread.arming]) (by simp [hi, Thread.deleting])

end Thread

end TimerInv

theorem not_arming_of_quiescent {c : Cfg K} (h : Quiescent c) : ¬Arming c ∧ ¬Deleting c := by
  constructor
  . rintro ⟨i, hi⟩
    have hq := h.2 i
    generalize c.locals i = t at hi hq
    cases t with
    | switchOn pc => cases pc <;> simp [Thread.arming, Thread.switching, SwitchOnPc.arming] at hi hq
    | _ => cases hi
  . rintro ⟨i, hi⟩
    have hq := h.2 i
    generalize c.locals i = t at hi hq
    cases t with
    | switchOff pc =>
      cases pc <;> simp [Thread.deleting, Thread.switching, SwitchOffPc.deleting] at hi hq
    | _ => cases hi

section Unswitched

variable {c c' : Cfg K}

/-- No call that switches the monitor has got past its first step. -/
def Unswitched (c : Cfg K) : Prop :=
  ∀ i, (c.locals i).arming = false ∧ (c.locals i).deleting = false

theorem SwitchOnPc.step_unswitched {s s' : Shared K} {pc pc' : SwitchOnPc} (hpc : pc.arming = false)
    (hon : s.st.mon.isMonitorActive ≠ 0) (h : pc.step s = some (s', pc'))
    : pc'.arming = false ∧ s' = s := by
  cases pc with
  | cmpxchg =>
    rw [step, if_neg hon] at h
    cases h
    exact ⟨rfl, rfl⟩
  | done ret => cases h
  | _ => cases hpc

theorem SwitchOffPc.step_unswitched {s s' : Shared K} {pc pc' : SwitchOffPc}
    (hpc : pc.deleting = false) (h : pc.step s = some (s', pc'))
    (hon : s'.st.mon.isMonitorActive ≠ 0) : pc'.deleting = false ∧ s' = s := by
  cases pc with
  | cmpxchg =>
    simp only [step] at h
    split at h
    . cases h
      exact absurd rfl hon
    . cases h
      exact ⟨rfl, rfl⟩
  | done ret => cases h
  | _ => cases hpc

theorem Unswitched.step (h : Unswitched c) (hon : MonitorOn c) {l : Lbl K}
    (hs : (throttling K).step c l = some c') (hon' : MonitorOn c') : Unswitched c' := by
  cases l with
  | env e =>
    obtain ⟨s, ev, _, rfl⟩ := System.step_env hs
    exact h
  | run i ch =>
    have hi := h i
    obtain ⟨s, t, ev, heq, rfl⟩ := System.step_run hs
    have ht : t.arming = false ∧ t.deleting = false := by
      rcases Thread.step_cases heq with ⟨_, _, _, task, _, rfl⟩ | ⟨_, _, _, rfl, _⟩
        | ⟨_, _, hpc, rfl, h', _⟩ | ⟨_, _, hpc, rfl, h', _⟩ | ⟨_, _, _, rfl, _⟩ | ⟨_, _, _, rfl, _⟩
      . cases task <;> exact ⟨rfl, rfl⟩
      . exact ⟨rfl, rfl⟩
      . rw [hpc] at hi
        exact ⟨(SwitchOnPc.step_unswitched hi.1 hon h').1, rfl⟩
      . rw [hpc] at hi
        exact ⟨rfl, (SwitchOffPc.step_unswitched hi.2 h' hon').1⟩
      . exact ⟨rfl, rfl⟩
      . exact ⟨rfl, rfl⟩
    intro j
    dsimp only
    rw [Function.update_apply]
    split
    . exact ht
    . exact h j

theorem Unswitched.inOrder (h : Unswitched c) (l : Lbl K) : InOrder c l := by
  cases l with
  | env e => trivial
  | run i ch =>
    have hi := h i
    constructor
    all_goals
      intro hpc
      rw [hpc] at hi
      simp [Thread.arming, Thread.deleting, SwitchOnPc.arming, SwitchOffPc.deleting] at hi

/-- As long as the monitor stays on, the timer is armed or its handler is running. -/
theorem timer_of_on {T : SyscallTable K} {stats : Ptr → SyscallStats} {now : Nat}
    (hrun : (throttling K).Run (fun c _ => MonitorOn c) (loaded K T stats now) c)
    (hon : MonitorOn c)
    : c.shared.st.mon.epochTimer.isSome ∨ c.shared.handler.isSome := by
  have hboth : MonitorOn c → Unswitched c ∧ TimerInv c := by
    apply hrun.invariant (I := fun c => MonitorOn c → Unswitched c ∧ TimerInv c)
    . exact fun _ => ⟨fun _ => ⟨rfl, rfl⟩, .loaded T stats now⟩
    . intro c l c' hI hon hs hon'
      obtain ⟨hun, htimer⟩ := hI hon
      exact ⟨hun.step hon hs hon', htimer.step (hun.inOrder l) hs⟩
  obtain ⟨hun, htimer⟩ := hboth hon
  have hflag := htimer.flag.resolve_left hon
  rcases htimer.on hflag with harmed | hhandler | ⟨i, hi⟩
  . exact .inl harmed
  . exact .inr hhandler
  . rw [(hun i).1] at hi
    cases hi

end Unswitched

/--
The timer is armed exactly when the monitor is on, whenever no call and no handler is in progress,
as long as calls that overlap arm and delete it in the order in which they have set the switch.
-/
theorem monitor_timer_agree (T : SyscallTable K) (stats : Ptr → SyscallStats) (now : Nat)
    {c : Cfg K} (hrun : (throttling K).Run InOrder (loaded K T stats now) c) (hq : Quiescent c)
    : c.shared.st.mon.isMonitorActive = 1 ↔ c.shared.st.mon.epochTimer.isSome := by
  have h : TimerInv c :=
    hrun.invariant (.loaded T stats now) fun _ _ _ h hg hs => h.step hg hs
  obtain ⟨hna, hnd⟩ := not_arming_of_quiescent hq
  constructor
  . intro h1
    rcases h.on h1 with ht | hh | ha
    . exact ht
    . simp [hq.1] at hh
    . exact absurd ha hna
  . intro ht
    rcases h.flag with h0 | h1
    . rcases h.off h0 with hd | ⟨hnone, _⟩
      . exact absurd hd hnd
      . simp [hnone] at ht
    . exact h1

def offThenOn : List (Lbl Platform.sample) :=
  .run 1 (.start .switchOff) :: steps 1 5 ++ .run 2 (.start .switchOn) :: steps 2 4

def inTurn (c : Cfg K) : Lbl K → Bool
  | .env _ => true
  | .run i _ =>
    match c.locals i with
    | .switchOff .timerDelete => c.shared.st.mon.isMonitorActive = 0
    | .switchOn .modTimer => c.shared.st.mon.isMonitorActive = 1
    | _ => true

theorem inOrder_of_inTurn {c : Cfg K} {l : Lbl K} (h : inTurn c l = true) : InOrder c l := by
  cases l with
  | env e => trivial
  | run i ch =>
    constructor
    . intro hi
      left
      simpa [inTurn, hi] using h
    . intro hi
      left
      simpa [inTurn, hi] using h

theorem isSome_offThenOn : (sampleRun inTurn offThenOn).isSome := by
  decide

theorem quiescent_offThenOn : Quiescent ((sampleRun inTurn offThenOn).get isSome_offThenOn) := by
  refine ⟨rfl, fun i => ?_⟩
  match i with
  | 0 => rfl
  | 1 => rfl
  | 2 => rfl
  | i + 3 => rfl

theorem monitor_timer_agree_offThenOn
    : ∃ c : Cfg Platform.sample, (c.locals 1).switching = false ∧ (c.locals 2).switching = false
      ∧ (c.shared.st.mon.isMonitorActive = 1 ↔ c.shared.st.mon.epochTimer.isSome) :=
  ⟨_, rfl, rfl, monitor_timer_agree SyscallTable.sample (fun _ => .zero) 0
    ((System.run_exec_get isSome_offThenOn).mono fun _ _ => inOrder_of_inTurn) quiescent_offThenOn⟩

/-- Thread 2 switches the monitor on before thread 1, which switches it off, deletes the timer. -/
def offAcrossOn : List (Lbl Platform.sample) :=
  .run 1 (.start .switchOff) :: steps 1 4 ++ (.run 2 (.start .switchOn) :: steps 2 4) ++ steps 1 1

theorem isSome_offAcrossOn : (sampleRun (fun _ _ => true) offAcrossOn).isSome := by
  decide

theorem monitor_on_without_timer
    : ∃ c, Reachable Platform.sample SyscallTable.sample c ∧ Quiescent c
      ∧ c.shared.st.mon.isMonitorActive = 1 ∧ c.shared.st.mon.epochTimer = none := by
  refine ⟨_, reachable_sampleRun isSome_offAcrossOn, ⟨rfl, fun i => ?_⟩, rfl, rfl⟩
  match i with
  | 0 => rfl
  | 1 => rfl
  | 2 => rfl
  | i + 3 => rfl

end Throttling

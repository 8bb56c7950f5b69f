import SyscallThrottling.Lemmas.Liveness

/-!
This module contains the ways in which a call of the wrapper comes to its end: its own steps, an
epoch of the timer, or the monitor being switched off. With the monitor in order, nobody is blocked
for ever.
-/

namespace Throttling

open Interleaving

variable {K : Platform} {T : SyscallTable K} {i : Nat} {c c' : Cfg K}

/-- Time passes, the timer does its work, and of all threads only `i` makes steps. -/
def Timed (i : Nat) : Lbl K → Prop
  | .env (.tick _) => True
  | .env .expire => True
  | .env .handler => True
  | .env _ => False
  | .run j ch => j = i ∧ ch.Unsignalled

theorem Timed.of_alone {l : Lbl K} (h : Alone i l) : Timed i l := by
  obtain ⟨ch, hch, rfl⟩ := h
  exact ⟨rfl, hch⟩

def Wakes (c : Cfg K) (l : Lbl K) : Prop :=
  ∃ j, c.locals j = .switchOff .wake ∧ l = .run j .go

def SwitchesOff (c : Cfg K) (l : Lbl K) : Prop :=
  ∃ j, (c.locals j = .idle ∧ l = .run j (.start .switchOff))
    ∨ ∃ pc, c.locals j = .switchOff pc ∧ l = .run j .go

theorem SwitchesOff.of_wakes {l : Lbl K} (h : Wakes c l) : SwitchesOff c l := by
  obtain ⟨j, hj, rfl⟩ := h
  exact ⟨j, .inr ⟨.wake, hj, rfl⟩⟩

def Cfg.Returned (c : Cfg K) (i : Nat) (Q : Int → List (Event K) → Prop) : Prop :=
  ∃ w ret, c.locals i = .wrapper w ∧ w.pc = .done ret ∧ Q ret (c.own i)

/-- The caller sleeps for lack of tokens, with the monitor on, unless a wake-up is due. -/
structure Cfg.Waits (c : Cfg K) (i : Nat) : Prop where
  asleep : Asleep c i
  on : c.shared.st.mon.isMonitorActive = 1 ∨ OffPending c
  tokens : c.shared.st.mon.currSyscalls ≤ 0 ∨ c.shared.handler = some .wake

/--
The call of thread `i` comes to an end that satisfies `Q`, without a signal and by steps from states
that satisfy `H`: left alone it returns or has a reason to wait, with the monitor off it takes at
most the wake-up that is due, with the monitor on and the timer at work it takes an epoch, and in
any case it is enough that the monitor is switched off.
-/
structure Ends (H : Cfg K → Prop) (i : Nat) (Q : Int → List (Event K) → Prop) (c : Cfg K)
    : Prop where
  settles : ∃ c' : Cfg K, (throttling K).Run (fun c l => H c ∧ Alone i l) c c'
    ∧ (c'.Returned i Q ∨ c'.Waits i)
  released : c.shared.st.mon.isMonitorActive = 0 →
    ∃ c' : Cfg K, (throttling K).Run (fun c l => H c ∧ (Alone i l ∨ Wakes c l)) c c'
      ∧ c'.Returned i Q
  timed : c.shared.st.mon.isMonitorActive ≠ 0 →
    c.shared.st.mon.epochTimer.isSome ∨ c.shared.handler.isSome →
      ∃ c' : Cfg K, (throttling K).Run (fun c l => H c ∧ Timed i l) c c' ∧ c'.Returned i Q
  switchedOff : ∃ c' : Cfg K,
    (throttling K).Run (fun c l => H c ∧ (Alone i l ∨ SwitchesOff c l)) c c'
    ∧ c'.Returned i Q

namespace HandlerPc

def left : HandlerPc → Nat
  | .check => 11
  | .readMax => 10
  | .readBlocked _ => 9
  | .addSum _ _ => 8
  | .readPeak _ _ => 7
  | .setPeak _ _ => 6
  | .readExponential _ _ => 5
  | .setExponential _ _ => 4
  | .setCurr _ => 3
  | .wake => 2
  | .modTimer => 1

/-- The run of the handler has refilled the tokens and woken the sleepers, or will do so. -/
def Refills (m : Monitor) : HandlerPc → Prop
  | .check => m.isMonitorActive ≠ 0
  | .wake => 0 < m.currSyscalls
  | .modTimer => 0 < m.currSyscalls ∧ m.throttWq = []
  | _ => True

variable {s : Shared K} {pc pc' : HandlerPc}

theorem step_left (h : (pc.step s).1.handler = some pc') : pc'.left < pc.left := by
  cases pc with
  | check =>
    simp only [step] at h
    split at h <;> cases h
    decide
  | readPeak max currBlocked =>
    simp only [step] at h
    split at h <;> cases h <;> simp [left]
  | modTimer => cases h
  | _ =>
    cases h
    simp [left]

theorem step_refills {trace : List (Event K)} (ha : Accounts s trace) (hpc : s.handler = some pc)
    (hr : pc.Refills s.st.mon) (h : (pc.step s).1.handler = some pc')
    : pc'.Refills (pc.step s).1.st.mon := by
  cases pc with
  | check =>
    simp only [step] at h
    split at h <;> cases h
    trivial
  | readPeak max currBlocked =>
    simp only [step] at h
    split at h <;> cases h <;> trivial
  | setCurr max =>
    cases h
    exact (ha.pending _ max hpc rfl).1
  | wake =>
    cases h
    exact ⟨hr, rfl⟩
  | modTimer => cases h
  | _ =>
    cases h
    trivial

theorem step_refilled (hr : pc.Refills s.st.mon) (h : (pc.step s).1.handler = none)
    : 0 < (pc.step s).1.st.mon.currSyscalls ∧ (pc.step s).1.st.mon.throttWq = [] := by
  cases pc with
  | check =>
    simp only [step] at h
    split at h
    . next hoff => exact absurd hoff hr
    . cases h
  | readPeak max currBlocked =>
    simp only [step] at h
    split at h <;> cases h
  | modTimer => exact hr
  | _ => cases h

theorem step_armed (hon : s.st.mon.isMonitorActive ≠ 0) (h : (pc.step s).1.handler = none)
    : (pc.step s).1.st.mon.epochTimer.isSome := by
  cases pc with
  | check =>
    simp only [step, if_neg hon] at h
    cases h
  | readPeak max currBlocked =>
    simp only [step] at h
    split at h <;> cases h
  | modTimer => rfl
  | _ => cases h

end HandlerPc

section Epoch

theorem step_handler {pc : HandlerPc} (hpc : c.shared.handler = some pc)
    : (throttling K).step c (.env .handler)
        = some ⟨(pc.step c.shared).1, c.locals, (pc.step c.shared).2 ++ c.trace⟩ := by
  have henv : (throttling K).env .handler c.shared = some (pc.step c.shared) := by
    simp only [throttling, Shared.envStep, hpc, Option.map_some]
  rw [System.step, henv]

theorem exists_handled (h : Reachable K T c) (hon : MonitorOn c) {pc : HandlerPc}
    (hpc : c.shared.handler = some pc)
    : ∃ c', (throttling K).Run (fun _ l => Timed i l) c c' ∧ c'.locals = c.locals ∧ MonitorOn c'
        ∧ c'.shared.handler = none ∧ c'.shared.st.mon.epochTimer.isSome
        ∧ (pc.Refills c.shared.st.mon →
          0 < c'.shared.st.mon.currSyscalls ∧ c'.shared.st.mon.throttWq = []) := by
  induction hleft : pc.left using Nat.strong_induction_on generalizing pc c with
  | _ n ih =>
    have hs := step_handler hpc
    have hflag : (pc.step c.shared).1.st.mon.isMonitorActive = c.shared.st.mon.isMonitorActive :=
      (HandlerPc.step_mon rfl).1
    have hacc := Accounts.of_reachable h
    have hon' : MonitorOn ⟨(pc.step c.shared).1, c.locals, (pc.step c.shared).2 ++ c.trace⟩ := by
      unfold MonitorOn
      rw [hflag]
      exact hon
    cases hpc' : (pc.step c.shared).1.handler with
    | none =>
      refine ⟨_, .tail (.env .handler) .refl trivial hs, rfl, hon', hpc', ?_, ?_⟩
      . exact HandlerPc.step_armed hon hpc'
      . exact fun hr => HandlerPc.step_refilled hr hpc'
    | some pc' =>
      subst hleft
      obtain ⟨c', hrun, hlocals, hend, hnone, harmed, hrefilled⟩ :=
        ih pc'.left (HandlerPc.step_left hpc') (h.step hs) hon' hpc' rfl
      refine ⟨c', .head (.env .handler) trivial hs hrun, hlocals, hend, hnone, harmed, ?_⟩
      intro hr
      apply hrefilled
      apply HandlerPc.step_refills hacc hpc hr hpc'

theorem exists_refilled (h : Reachable K T c) (hon : MonitorOn c)
    (hhandler : c.shared.handler = none) (harmed : c.shared.st.mon.epochTimer.isSome)
    : ∃ c', (throttling K).Run (fun _ l => Timed i l) c c' ∧ c'.locals = c.locals
        ∧ 0 < c'.shared.st.mon.currSyscalls ∧ c'.shared.st.mon.throttWq = [] := by
  obtain ⟨e, he⟩ := Option.isSome_iff_exists.mp harmed
  let due : Cfg K :=
    ⟨c.shared.setMon { c.shared.st.mon with jiffies := c.shared.st.mon.jiffies + e }, c.locals,
      c.trace⟩
  let fired : Cfg K :=
    ⟨(due.shared.setMon { due.shared.st.mon with epochTimer := none }).setHandler (some .check),
      due.locals, due.trace⟩
  have htick : (throttling K).step c (.env (.tick e)) = some due := rfl
  have he' : due.shared.st.mon.epochTimer = some e := he
  have hhandler' : due.shared.handler = none := hhandler
  have hle : e ≤ due.shared.st.mon.jiffies := Nat.le_add_left ..
  have hexpire : (throttling K).step due (.env .expire) = some fired := by
    simp only [System.step, throttling, Shared.envStep, he', hhandler', if_pos hle]
    rfl
  obtain ⟨c', hrun, hlocals, _, _, _, hrefilled⟩ :=
    exists_handled (i := i) ((h.step htick).step hexpire) hon rfl
  refine ⟨c', .head (.env (.tick e)) trivial htick (.head (.env .expire) trivial hexpire hrun),
    hlocals, ?_⟩
  apply hrefilled
  exact hon

theorem exists_epoch (h : Reachable K T c) (hon : MonitorOn c)
    (htimer : c.shared.st.mon.epochTimer.isSome ∨ c.shared.handler.isSome)
    : ∃ c', (throttling K).Run (fun _ l => Timed i l) c c' ∧ c'.locals = c.locals
        ∧ 0 < c'.shared.st.mon.currSyscalls ∧ c'.shared.st.mon.throttWq = [] := by
  cases hhandler : c.shared.handler with
  | none =>
    rw [hhandler] at htimer
    apply exists_refilled h hon hhandler
    simpa using htimer
  | some pc =>
    -- what is left of the run of the handler, then one whole epoch
    obtain ⟨c₁, hrun₁, hlocals₁, hon₁, hnone, harmed, _⟩ := exists_handled (i := i) h hon hhandler
    obtain ⟨c₂, hrun₂, hlocals₂, hrefilled⟩ :=
      exists_refilled (i := i) (reachable_trans h hrun₁.reaches) hon₁ hnone harmed
    exact ⟨c₂, hrun₁.trans hrun₂, hlocals₂.trans hlocals₁, hrefilled⟩

end Epoch

def WrapperPc.leaving : WrapperPc → Bool
  | .statLookup => true
  | .statCompare _ => true
  | .statUpdate _ => true
  | .callOriginal => true
  | .done _ => true
  | _ => false

namespace Wrapper

variable {U : Type} {i : Nat} {s s' : Shared K} {w w' : Wrapper K} {ev : List (Event K)}

theorem leaving_tail (w : Wrapper K) : w.tail.pc.leaving = true := by
  rcases pc_tail (w := w) with h | h <;> rw [h] <;> rfl

theorem leaving_step {ch : Choice U} (hw : w.pc.leaving = true)
    (h : w.step i ch s = some (s', w', ev))
    : w'.pc.leaving = true := by
  cases hpc : w.pc <;> rw [hpc] at hw <;> try cases hw
  all_goals
    unfold step at h
    rw [hpc] at h
    dsimp only at h
    repeat' split at h
    all_goals
      first
      | contradiction
      | (cases h
         rfl)

theorem leaving_solo {t t' : Thread K} {trace trace' : List (Event K)}
    (h : (throttling K).Solo i Choice.Unsignalled s t trace s' t' trace')
    (hw : ∃ w, t = .wrapper w ∧ w.pc.leaving = true)
    : ∃ w, t' = .wrapper w ∧ w.pc.leaving = true := by
  induction h with
  | refl => exact hw
  | head ch _ h _ ih =>
    apply ih
    obtain ⟨w, rfl, hw⟩ := hw
    simp only [throttling, Thread.step, Option.map_eq_some_iff] at h
    obtain ⟨⟨s₁, w₁, ev₁⟩, h, hsame⟩ := h
    cases hsame
    exact ⟨w₁, rfl, leaving_step hw h⟩

theorem solo_tail (s : Shared K) (w : Wrapper K) (trace : List (Event K))
    : ∃ s' w' trace',
      (throttling K).Solo i Choice.Unsignalled s (.wrapper w.tail) trace s' (.wrapper w') trace'
        ∧ ∃ ret, w'.pc = .done ret := by
  obtain ⟨s', w', trace', hsolo, hend⟩ := (Settles.tail (i := i) (s := s) (w := w)).solo trace
  refine ⟨s', w', trace', hsolo, ?_⟩
  rcases hend with hdone | ⟨hsleep, _⟩
  . exact hdone
  . obtain ⟨w'', heq, hleaving⟩ := leaving_solo hsolo ⟨w.tail, rfl, leaving_tail w⟩
    cases heq
    rw [hsleep] at hleaving
    cases hleaving

theorem thread_go {s r : Shared K} {w v : Wrapper K} {ev : List (Event K)}
    (h : w.step (T := Task K) i .go s = some (r, v, ev))
    : (throttling K).thread i .go s (.wrapper w) = some (r, .wrapper v, ev) := by
  simp only [throttling, Thread.step, h, Option.map_some]

def Ready (s : Shared K) : Prop :=
  s.st.mon.isMonitorActive = 0 ∨ s.st.mon.currSyscalls > 0

theorem solo_takeToken (hready : Ready s) (trace : List (Event K))
    : ∃ s' w' trace',
      (throttling K).Solo i Choice.Unsignalled s (.wrapper (w.goto .takeToken)) trace
          s' (.wrapper w') trace'
        ∧ ∃ ret, w'.pc = .done ret := by
  by_cases htok : s.st.mon.currSyscalls > 0
  . obtain ⟨s', w', trace', hsolo, hdone⟩ := solo_tail (i := i)
      (s.setMon { s.st.mon with currSyscalls := s.st.mon.currSyscalls - 1 }) (w.goto .takeToken)
      (.token i s.st.mon.jiffies :: trace)
    exact ⟨s', w', trace', .head .go trivial (thread_go (if_pos htok)) hsolo, hdone⟩
  . have hoff : s.st.mon.isMonitorActive = 0 := hready.resolve_right htok
    obtain ⟨s', w', trace', hsolo, hdone⟩ :=
      solo_tail (i := i) s (w.goto .recheck) (.sawOff i :: trace)
    refine ⟨s', w', trace', ?_, hdone⟩
    refine .head .go trivial (thread_go (v := w.goto .recheck) (if_neg htok)) ?_
    exact .head .go trivial (thread_go (if_pos hoff)) hsolo

theorem solo_sleep (hpc : w.pc = .sleep) (hq : i ∉ s.st.mon.throttWq) (hready : Ready s)
    (trace : List (Event K))
    : ∃ s' w' trace',
      (throttling K).Solo i Choice.Unsignalled s (.wrapper w) trace s' (.wrapper w') trace'
        ∧ ∃ ret, w'.pc = .done ret := by
  have hw : w = w.goto .sleep := by
    rw [← hpc]
    rfl
  rw [hw]
  let s₁ := s.setMon (enqueue s.st.mon i)
  let s₂ := s₁.setMon (dequeue s₁.st.mon i)
  let s₃ := s₂.setMon (addBlocked s₂.st.mon (-1))
  let w₁ := { w with delay := w.delay + (s₃.st.mon.jiffiesUlong - w.startTime) }
  have hready₃ : Ready s₃ := hready
  obtain ⟨s', w', trace', hsolo, hdone⟩ := solo_takeToken (i := i) (w := w₁) hready₃ trace
  refine ⟨s', w', trace', ?_, hdone⟩
  have hwoken : (throttling K).Solo i Choice.Unsignalled s₂ (.wrapper (w.goto (.decBlocked 0))) trace
      s' (.wrapper w') trace' := by
    refine .head .go trivial (thread_go (r := s₃) (v := w.goto .addDelay) rfl) ?_
    exact .head .go trivial (thread_go (v := w₁.goto .takeToken) rfl) hsolo
  refine .head .go trivial (thread_go (v := w.goto .enqueue) (if_neg hq)) ?_
  refine .head .go trivial (thread_go (r := s₁) (v := w.goto .testMonitor) rfl) ?_
  by_cases hoff : s.st.mon.isMonitorActive = 0
  . exact .head .go trivial (thread_go (r := s₂) (v := w.goto (.decBlocked 0))
      (if_pos hoff)) hwoken
  . have htok : s.st.mon.currSyscalls > 0 := hready.resolve_left hoff
    refine .head .go trivial (thread_go (v := w.goto .testTokens) (if_neg hoff)) ?_
    exact .head .go trivial (thread_go (r := s₂) (v := w.goto (.decBlocked 0))
      (if_pos htok)) hwoken

end Wrapper

def Cfg.Over (c : Cfg K) (i : Nat) : Prop :=
  ∃ w ret, c.locals i = .wrapper w ∧ w.pc = .done ret

section Ways

structure SameTimer (c c' : Cfg K) : Prop where
  flag : c'.shared.st.mon.isMonitorActive = c.shared.st.mon.isMonitorActive
  timer : c'.shared.st.mon.epochTimer = c.shared.st.mon.epochTimer
  handler : c'.shared.handler = c.shared.handler

theorem sameTimer_of_alone (hw : ∃ w, c.locals i = .wrapper w)
    (hrun : (throttling K).Run (fun _ l => Alone i l) c c') : SameTimer c c' := by
  have hboth : SameTimer c c' ∧ ∃ w, c'.locals i = .wrapper w := by
    apply hrun.invariant (I := fun c' => SameTimer c c' ∧ ∃ w, c'.locals i = .wrapper w)
      ⟨⟨rfl, rfl, rfl⟩, hw⟩
    intro c₁ l c₂ hI hl hs
    obtain ⟨hsame, w, hw⟩ := hI
    obtain ⟨ch, _, rfl⟩ := hl
    obtain ⟨s, t, ev, heq, rfl⟩ := System.step_run hs
    have heq : (c₁.locals i).step i ch c₁.shared = some (s, t, ev) := heq
    rw [hw] at heq
    obtain ⟨w', rfl, h⟩ := Thread.step_wrapper heq
    have hframe := (Wrapper.step_spec h).1
    refine ⟨⟨?_, ?_, hframe.handler.trans hsame.handler⟩, w', Function.update_self ..⟩
    . rw [hframe.mon]
      exact hsame.flag
    . rw [hframe.mon]
      exact hsame.timer
  exact hboth.1

theorem exists_alone (h : Reachable K T c) (hw : ∃ w, c.locals i = .wrapper w)
    : ∃ c' : Cfg K, (throttling K).Run (fun _ l => Alone i l) c c' ∧ Reachable K T c'
      ∧ SameTimer c c'
        ∧ (c'.Over i ∨ ((∃ w, c'.locals i = .wrapper w ∧ w.pc = .sleep) ∧ Asleep c' i)) := by
  obtain ⟨w, hw⟩ := hw
  obtain ⟨c', hrun, w', hw', hend⟩ := exists_settled hw
  refine ⟨c', hrun, reachable_trans h hrun.reaches, sameTimer_of_alone ⟨w, hw⟩ hrun, ?_⟩
  rcases hend with ⟨ret, hdone⟩ | ⟨hsleep, hq⟩
  . exact .inl ⟨w', ret, hw', hdone⟩
  . refine .inr ⟨⟨w', hw', hsleep⟩, ?_, hq⟩
    rw [hw']
    exact hsleep

theorem exists_woken {w : Wrapper K} (hw : c.locals i = .wrapper w) (hpc : w.pc = .sleep)
    (hq : i ∉ c.shared.st.mon.throttWq) (hready : Wrapper.Ready c.shared)
    : ∃ c' : Cfg K, (throttling K).Run (fun _ l => Alone i l) c c' ∧ c'.Over i := by
  obtain ⟨s', w', trace', hsolo, ret, hdone⟩ := Wrapper.solo_sleep hpc hq hready c.trace
  exact ⟨_, hsolo.run rfl hw rfl, w', ret, Function.update_self .., hdone⟩

theorem offPending_of_asleep (h : Reachable K T c) (hasleep : Asleep c i)
    (hoff : c.shared.st.mon.isMonitorActive = 0) : OffPending c := by
  rcases (WakeInv.of_reachable h).on_or_offPending hasleep with hon | hpending
  . rw [hoff] at hon
    cases hon
  . exact hpending

theorem exists_released_of_offPending {w : Wrapper K} (hw : c.locals i = .wrapper w)
    (hpc : w.pc = .sleep) (hoff : c.shared.st.mon.isMonitorActive = 0) (hpending : OffPending c)
    : ∃ c' : Cfg K, (throttling K).Run (fun c l => Alone i l ∨ Wakes c l) c c' ∧ c'.Over i := by
  obtain ⟨j, hj⟩ := hpending
  have hne : i ≠ j := by
    rintro rfl
    rw [hj] at hw
    cases hw
  let c₁ : Cfg K := ⟨c.shared.setMon c.shared.st.mon.wakeUp,
    Function.update c.locals j (.switchOff .readStart), c.trace⟩
  have hs : (throttling K).step c (.run j .go) = some c₁ := by
    simp only [System.step, throttling, Thread.step, hj, SwitchOffPc.step]
    rfl
  have hw₁ : c₁.locals i = .wrapper w := (Function.update_of_ne hne ..).trans hw
  have hq : i ∉ c₁.shared.st.mon.throttWq := List.not_mem_nil
  obtain ⟨c', hrun, hover⟩ := exists_woken hw₁ hpc hq (.inl hoff)
  exact ⟨c', .head _ (.inr ⟨j, hj, rfl⟩) hs (hrun.mono fun _ _ => .inl), hover⟩

theorem exists_released (h : Reachable K T c) (hw : ∃ w, c.locals i = .wrapper w)
    (hoff : c.shared.st.mon.isMonitorActive = 0)
    : ∃ c' : Cfg K, (throttling K).Run (fun c l => Alone i l ∨ Wakes c l) c c' ∧ c'.Over i := by
  obtain ⟨c₁, hrun₁, hreach₁, hsame, hover | ⟨⟨w, hw₁, hsleep⟩, hasleep⟩⟩ := exists_alone h hw
  . exact ⟨c₁, hrun₁.mono fun _ _ => .inl, hover⟩
  . have hoff₁ := hsame.flag.trans hoff
    have hpending := offPending_of_asleep hreach₁ hasleep hoff₁
    obtain ⟨c₂, hrun₂, hover⟩ := exists_released_of_offPending hw₁ hsleep hoff₁ hpending
    exact ⟨c₂, (hrun₁.mono fun _ _ => .inl).trans hrun₂, hover⟩

theorem exists_timed (h : Reachable K T c) (hw : ∃ w, c.locals i = .wrapper w) (hon : MonitorOn c)
    (htimer : c.shared.st.mon.epochTimer.isSome ∨ c.shared.handler.isSome)
    : ∃ c' : Cfg K, (throttling K).Run (fun _ l => Timed i l) c c' ∧ c'.Over i := by
  obtain ⟨c₁, hrun₁, hreach₁, hsame, hover | ⟨⟨w, hw₁, hsleep⟩, _⟩⟩ := exists_alone h hw
  . exact ⟨c₁, hrun₁.mono fun _ _ => .of_alone, hover⟩
  . have hon₁ : MonitorOn c₁ := by
      unfold MonitorOn
      rw [hsame.flag]
      exact hon
    rw [← hsame.timer, ← hsame.handler] at htimer
    obtain ⟨c₂, hrun₂, hlocals, htok, hwq⟩ := exists_epoch (i := i) hreach₁ hon₁ htimer
    have hq : i ∉ c₂.shared.st.mon.throttWq := by simp [hwq]
    obtain ⟨c₃, hrun₃, hover⟩ := exists_woken (by rw [hlocals, hw₁]) hsleep hq (.inr htok)
    refine ⟨c₃, ?_, hover⟩
    exact ((hrun₁.mono fun _ _ => .of_alone).trans hrun₂).trans (hrun₃.mono fun _ _ => .of_alone)

theorem exists_flagged (h : Reachable K T c) (hw : ∃ w, c.locals i = .wrapper w)
    (hon : c.shared.st.mon.isMonitorActive = 1)
    : ∃ c', (throttling K).Run (fun c l => SwitchesOff c l) c c'
        ∧ c'.shared.st.mon.isMonitorActive = 0 ∧ c'.locals i = c.locals i ∧ OffPending c' := by
  obtain ⟨j, hj⟩ := exists_idle h
  have hne : i ≠ j := by
    rintro rfl
    obtain ⟨w, hw⟩ := hw
    rw [hj] at hw
    cases hw
  let c₁ : Cfg K := ⟨c.shared, Function.update c.locals j (.switchOff .cmpxchg), c.trace⟩
  let c₂ : Cfg K := ⟨c.shared.setMon { c.shared.st.mon with isMonitorActive := 0 },
    Function.update c₁.locals j (.switchOff .wake), c.trace⟩
  have hj₁ : c₁.locals j = .switchOff .cmpxchg := Function.update_self ..
  have hs₁ : (throttling K).step c (.run j (.start .switchOff)) = some c₁ := by
    simp only [System.step, throttling, Thread.step, hj]
    rfl
  have hs₂ : (throttling K).step c₁ (.run j .go) = some c₂ := by
    have hon₁ : c₁.shared.st.mon.isMonitorActive = 1 := hon
    simp only [System.step, throttling, Thread.step, hj₁, SwitchOffPc.step, if_pos hon₁]
    rfl
  refine ⟨c₂, ?_, rfl, ?_, j, Function.update_self ..⟩
  . exact .head _ ⟨j, .inl ⟨hj, rfl⟩⟩ hs₁ (.head _ ⟨j, .inr ⟨_, hj₁, rfl⟩⟩ hs₂ .refl)
  . exact (Function.update_of_ne hne ..).trans (Function.update_of_ne hne ..)

theorem exists_switchedOff (h : Reachable K T c) (hw : ∃ w, c.locals i = .wrapper w)
    : ∃ c' : Cfg K, (throttling K).Run (fun c l => Alone i l ∨ SwitchesOff c l) c c' ∧ c'.Over i := by
  have hwakes : ∀ {c c' : Cfg K}, (throttling K).Run (fun c l => Alone i l ∨ Wakes c l) c c' →
      (throttling K).Run (fun c l => Alone i l ∨ SwitchesOff c l) c c' :=
    fun hrun => hrun.mono fun _ _ hl => hl.imp_right .of_wakes
  obtain ⟨c₁, hrun₁, hreach₁, _, hover | ⟨⟨w, hw₁, hsleep⟩, hasleep⟩⟩ := exists_alone h hw
  . exact ⟨c₁, hrun₁.mono fun _ _ => .inl, hover⟩
  . have hrun₁ := hrun₁.mono fun c l hl => (Or.inl hl : Alone i l ∨ SwitchesOff c l)
    rcases (WakeInv.of_reachable hreach₁).flag with hoff | hon
    . have hpending := offPending_of_asleep hreach₁ hasleep hoff
      obtain ⟨c₂, hrun₂, hover⟩ := exists_released_of_offPending hw₁ hsleep hoff hpending
      exact ⟨c₂, hrun₁.trans (hwakes hrun₂), hover⟩
    . obtain ⟨c₂, hrun₂, hoff, hlocals, hpending⟩ := exists_flagged hreach₁ ⟨w, hw₁⟩ hon
      obtain ⟨c₃, hrun₃, hover⟩ :=
        exists_released_of_offPending (hlocals.trans hw₁) hsleep hoff hpending
      exact ⟨c₃, (hrun₁.trans (hrun₂.mono fun _ _ => .inr)).trans (hwakes hrun₃), hover⟩

/-- The steps that bring a call to its end leave the syscall table alone. -/
theorem sameHooks_of_ending {l : Lbl K} (hw : ∃ w, c.locals i = .wrapper w)
    (hl : Timed i l ∨ SwitchesOff c l) (hs : (throttling K).step c l = some c')
    : SameHooks c.shared c'.shared ∧ ∃ w, c'.locals i = .wrapper w := by
  obtain ⟨w, hw⟩ := hw
  refine ⟨?_, (wrapper_of_run (.tail l .refl trivial hs : (throttling K).Reaches c c') hw).imp
    fun _ h => h.1⟩
  cases l with
  | env e =>
    obtain ⟨s, ev, heq, rfl⟩ := System.step_env hs
    exact Shared.sameHooks heq
  | run k ch =>
    obtain ⟨s, t, ev, heq, rfl⟩ := System.step_run hs
    have heq : (c.locals k).step k ch c.shared = some (s, t, ev) := heq
    rcases hl with ⟨rfl, _⟩ | ⟨j, ⟨hj, hl⟩ | ⟨pc, hj, hl⟩⟩
    . rw [hw] at heq
      obtain ⟨w', rfl, h⟩ := Thread.step_wrapper heq
      have hframe := (Wrapper.step_spec h).1
      exact ⟨hframe.writeLock, hframe.sys⟩
    . cases hl
      rw [hj] at heq
      cases heq
      exact .of_eq rfl rfl
    . cases hl
      rw [hj, Thread.step, Option.map_eq_some_iff] at heq
      obtain ⟨⟨s₁, pc'⟩, h, hsame⟩ := heq
      cases hsame
      exact (SwitchOffPc.step_frame h).sameHooks

theorem flag_of_timed {l : Lbl K} (hw : ∃ w, c.locals i = .wrapper w) (hl : Timed i l)
    (hs : (throttling K).step c l = some c')
    : c'.shared.st.mon.isMonitorActive = c.shared.st.mon.isMonitorActive := by
  cases l with
  | env e =>
    obtain ⟨s, ev, heq, rfl⟩ := System.step_env hs
    dsimp only
    rcases Shared.envStep_cases heq with ⟨_, rfl, _⟩ | ⟨_, _, _, _, rfl, _⟩ | ⟨pc, _, heq⟩
      | ⟨newMax, rfl, _⟩ | ⟨_, _, _, _, rfl, _⟩
    . rfl
    . rfl
    . exact (HandlerPc.step_mon heq).1
    . unfold Monitor.setMaxSyscall
      split <;> rfl
    . rfl
  | run j ch =>
    obtain ⟨rfl, _⟩ := hl
    obtain ⟨w, hw⟩ := hw
    obtain ⟨s, t, ev, heq, rfl⟩ := System.step_run hs
    have heq : (c.locals j).step j ch c.shared = some (s, t, ev) := heq
    rw [hw] at heq
    obtain ⟨w', rfl, h⟩ := Thread.step_wrapper heq
    dsimp only
    rw [(Wrapper.step_spec h).1.mon]

end Ways

section Ends

variable {H : Cfg K → Prop} {Q : Int → List (Event K) → Prop}

theorem Ends.of_sameHooks (h : Reachable K T c) (hw : ∃ w, c.locals i = .wrapper w)
    (hkeep : ∀ c c' : Cfg K, SameHooks c.shared c'.shared → H c → H c') (hc : H c)
    (hQ : ∀ (c' : Cfg K) (w : Wrapper K) (ret : Int), (throttling K).Run (fun c _ => H c) c c' →
      c'.locals i = .wrapper w → w.pc = .done ret → Q ret (c'.own i))
    : Ends H i Q c := by
  have hguard : ∀ {G : Cfg K → Lbl K → Prop} {c' : Cfg K},
      (∀ c l, G c l → Timed i l ∨ SwitchesOff c l) → (throttling K).Run G c c' →
        (throttling K).Run (fun c l => H c ∧ G c l) c c' := by
    intro G c' hG hrun
    have hrun := hrun.with_invariant (I := fun c => H c ∧ ∃ w, c.locals i = .wrapper w) ⟨hc, hw⟩ (by
      intro c₁ l c₂ hI hl hs
      obtain ⟨hsame, hw⟩ := sameHooks_of_ending hI.2 (hG c₁ l hl) hs
      exact ⟨hkeep c₁ c₂ hsame hI.1, hw⟩)
    exact hrun.mono fun _ _ hl => ⟨hl.2.1, hl.1⟩
  have hend : ∀ {G : Cfg K → Lbl K → Prop} {c' : Cfg K},
      (throttling K).Run (fun c l => H c ∧ G c l) c c' → c'.Over i → c'.Returned i Q := by
    intro G c' hrun hover
    obtain ⟨w, ret, hw, hdone⟩ := hover
    exact ⟨w, ret, hw, hdone, hQ c' w ret (hrun.mono fun _ _ hl => hl.1) hw hdone⟩
  constructor
  . obtain ⟨c', hrun, hreach, _, hend'⟩ := exists_alone h hw
    have hrun := hguard (fun _ _ hl => .inl (.of_alone hl)) hrun
    refine ⟨c', hrun, ?_⟩
    rcases hend' with hover | ⟨_, hasleep⟩
    . exact .inl (hend hrun hover)
    . have hinv := WakeInv.of_reachable hreach
      exact .inr ⟨hasleep, hinv.on_or_offPending hasleep, hinv.asleep i hasleep.1 hasleep.2⟩
  . intro hoff
    obtain ⟨c', hrun, hover⟩ := exists_released h hw hoff
    have hrun := hguard (fun _ _ hl => hl.imp .of_alone .of_wakes) hrun
    exact ⟨c', hrun, hend hrun hover⟩
  . intro hon htimer
    obtain ⟨c', hrun, hover⟩ := exists_timed h hw hon htimer
    have hrun := hguard (fun _ _ hl => .inl hl) hrun
    exact ⟨c', hrun, hend hrun hover⟩
  . obtain ⟨c', hrun, hover⟩ := exists_switchedOff h hw
    have hrun := hguard (fun _ _ hl => hl.imp_left .of_alone) hrun
    exact ⟨c', hrun, hend hrun hover⟩

end Ends

/--
Nobody is blocked for ever: wherever the module can get with the monitor in order, a caller can end
its call although nobody else does anything, if time passes and the timer does its work.
-/
theorem exists_returned {T : SyscallTable K} {stats : Ptr → SyscallStats} {now : Nat} {c : Cfg K}
    (hrun : (throttling K).Run InOrder (loaded K T stats now) c)
    (hquiet : ∀ j, (c.locals j).switching = false) {i : Nat} (hi : ∃ w, c.locals i = .wrapper w)
    : ∃ c', (throttling K).Run (fun _ l => Timed i l) c c'
        ∧ ∃ w ret, c'.locals i = .wrapper w ∧ w.pc = .done ret := by
  have h : Reachable K T c := ⟨stats, now, hrun.reaches⟩
  have htimer : TimerInv c :=
    hrun.invariant (.loaded T stats now) fun _ _ _ h hg hs => h.step hg hs
  rcases htimer.flag with hoff | hon
  . obtain ⟨c₁, hrun₁, hreach₁, hsame, hover | ⟨_, hasleep⟩⟩ := exists_alone h hi
    . exact ⟨c₁, hrun₁.mono fun _ _ => .of_alone, hover⟩
    . -- nobody is about to wake the caller, and it does not sleep for anything else
      obtain ⟨j, hj⟩ := offPending_of_asleep hreach₁ hasleep (hsame.flag.trans hoff)
      have hne : j ≠ i := by
        rintro rfl
        have hsleep := hasleep.1
        rw [hj] at hsleep
        exact hsleep.elim
      have hj₀ : c₁.locals j = c.locals j := by
        apply hrun₁.locals
        rintro c ch ⟨_, _, heq⟩
        cases heq
        exact hne rfl
      have hidle := hquiet j
      rw [← hj₀, hj] at hidle
      cases hidle
  . have hne : MonitorOn c := by
      unfold MonitorOn
      omega
    apply exists_timed h hi hne
    cases hhandler : c.shared.handler with
    | some pc => exact .inr rfl
    | none =>
      left
      obtain ⟨hna, _⟩ := not_arming_of_quiescent ⟨hhandler, hquiet⟩
      rcases htimer.on hon with harmed | hrunning | ha
      . exact harmed
      . simp [hhandler] at hrunning
      . exact absurd ha hna

theorem isSome_fourCalls_inTurn : (sampleRun inTurn fourCalls).isSome := by
  decide

theorem quiet_fourCalls (j : Nat)
    : (((sampleRun inTurn fourCalls).get isSome_fourCalls_inTurn).locals j).switching = false := by
  match j with
  | 0 => rfl
  | 1 => rfl
  | 2 => rfl
  | 3 => rfl
  | 4 => rfl
  | j + 5 => rfl

theorem exists_returned_fourCalls
    : ∃ c c' : Cfg Platform.sample, Asleep c 4
        ∧ (throttling Platform.sample).Run (fun _ l => Timed 4 l) c c'
        ∧ ∃ w ret, c'.locals 4 = .wrapper w ∧ w.pc = .done ret := by
  have hrun : (throttling Platform.sample).Run InOrder
      (loaded Platform.sample SyscallTable.sample (fun _ => .zero) 0)
      ((sampleRun inTurn fourCalls).get isSome_fourCalls_inTurn) :=
    (System.run_exec_get isSome_fourCalls_inTurn).mono fun _ _ => inOrder_of_inTurn
  obtain ⟨c', h⟩ := exists_returned hrun quiet_fourCalls (i := 4) ⟨_, rfl⟩
  have hasleep : Asleep ((sampleRun inTurn fourCalls).get isSome_fourCalls_inTurn) 4 :=
    ⟨rfl, by decide⟩
  exact ⟨_, c', hasleep, h⟩

end Throttling

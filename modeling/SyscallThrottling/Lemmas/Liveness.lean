import SyscallThrottling.Lemmas.Progress
import SyscallThrottling.Lemmas.Wakeup
import SyscallThrottling.Lemmas.Writers
import SyscallThrottling.Lib.Potential

/-!
This module contains what a call costs its caller: a number of steps that is bounded, unless others
keep changing what the call waits for.
-/

namespace Throttling

open Interleaving Potential

variable {K : Platform}

/-- What the condition of `wait_event_interruptible` and the wait itself depend on. -/
structure WaitView where
  on : Bool
  tokens : Bool
  queued : Bool
  deriving DecidableEq

def Shared.waitView (i : Nat) (s : Shared K) : WaitView where
  on := s.st.mon.isMonitorActive ≠ 0
  tokens := s.st.mon.currSyscalls > 0
  queued := i ∈ s.st.mon.throttWq

namespace WaitView

variable (v : WaitView)

def enqueueLeft : Nat :=
  if v.on = false ∨ v.tokens = true then 10 else 5

def takeTokenLeft : Nat :=
  if v.tokens = true then 5 else if v.on = true then 9 else 6

end WaitView

/-- The steps that are left if what `v` shows is only changed by the caller. -/
def WrapperPc.left (v : WaitView) : WrapperPc → Nat
  | .dispatch => 14
  | .direct _ => 1
  | .entry => 13
  | .checkUid => 12
  | .checkProg => 11
  | .lookup => 10
  | .takeToken => v.takeTokenLeft
  | .recheck => if v.on = true then v.enqueueLeft + 3 else 5
  | .incBlocked => v.enqueueLeft + 2
  | .startWait => v.enqueueLeft + 1
  | .enqueue => v.enqueueLeft
  | .testMonitor =>
    if v.on = false ∨ v.tokens = true then 9 else if v.queued = true then 4 else 8
  | .testTokens =>
    if v.tokens = true then 8 else if v.queued = true then 3 else v.enqueueLeft + 2
  | .sleep => if v.queued = true then 2 else v.enqueueLeft + 1
  | .decBlocked waitRet => if waitRet ≠ 0 then 1 else v.takeTokenLeft + 2
  | .addDelay => v.takeTokenLeft + 1
  | .statLookup => 4
  | .statCompare _ => 3
  | .statUpdate _ => 2
  | .callOriginal => 1
  | .done _ => 0

def SwitchOnPc.left : SwitchOnPc → Nat
  | .cmpxchg => 4
  | .startTime => 3
  | .timerSetup => 2
  | .modTimer => 1
  | .done _ => 0

def SwitchOffPc.left : SwitchOffPc → Nat
  | .cmpxchg => 5
  | .wake => 4
  | .readStart => 3
  | .setElapsed _ => 2
  | .timerDelete => 1
  | .done _ => 0

def RegisterPc.left : RegisterPc K → Nat
  | .alloc => 9
  | .lock _ _ => 8
  | .check _ _ => 7
  | .present _ _ => 1
  | .save _ _ => 6
  | .table _ => 5
  | .flag _ => 4
  | .hash _ => 3
  | .count => 2
  | .unlock => 1
  | .done _ => 0

def DeregisterPc.left : DeregisterPc K → Nat
  | .lock => 10
  | .check => 9
  | .find => 8
  | .fail _ => 1
  | .table _ => 7
  | .flag _ => 6
  | .hash _ => 5
  | .count _ => 4
  | .unlock _ => 3
  | .synchronize _ => 2
  | .free _ _ => 1
  | .done _ => 0

/-- Fifteen steps, with the one that starts the call, are enough for each of the calls. -/
def Thread.left (v : WaitView) : Thread K → Nat
  | .idle => 15
  | .wrapper w => w.pc.left v
  | .switchOn pc => pc.left
  | .switchOff pc => pc.left
  | .register f => f.pc.left
  | .deregister f => f.pc.left

theorem WaitView.enqueueLeft_le (v : WaitView) : v.enqueueLeft ≤ 10 := by
  unfold enqueueLeft
  split <;> omega

theorem WaitView.takeTokenLeft_le (v : WaitView) : v.takeTokenLeft ≤ 9 := by
  unfold takeTokenLeft
  repeat' split
  all_goals omega

theorem Thread.left_le (v : WaitView) (t : Thread K) : t.left v ≤ 15 := by
  have henqueue := v.enqueueLeft_le
  have htake := v.takeTokenLeft_le
  cases t with
  | idle => exact Nat.le_refl _
  | wrapper w =>
    simp only [left]
    cases w.pc <;> simp only [WrapperPc.left] <;> repeat' split
    all_goals omega
  | switchOn pc => cases pc <;> simp [left, SwitchOnPc.left]
  | switchOff pc => cases pc <;> simp [left, SwitchOffPc.left]
  | register f =>
    simp only [left]
    cases f.pc <;> simp [RegisterPc.left]
  | deregister f =>
    simp only [left]
    cases f.pc <;> simp [DeregisterPc.left]

namespace Wrapper

variable {T : Type} {i : Nat} {ch : Choice T} {s s' : Shared K} {w w' : Wrapper K}
  {ev : List (Event K)}

theorem left_tail (v : WaitView) (w : Wrapper K) : w.tail.pc.left v ≤ 4 := by
  unfold tail
  split <;> simp [goto, WrapperPc.left]

theorem step_left (h : w.step i ch s = some (s', w', ev))
    : w'.pc.left (s'.waitView i) < w.pc.left (s.waitView i) := by
  unfold step at h
  repeat' split at h
  all_goals
    first
    | contradiction
    | (cases h
       simp only [‹w.pc = _›]
       first
       | (apply Nat.lt_of_le_of_lt (left_tail _ _)
          simp [*, WrapperPc.left, Shared.waitView, WaitView.takeTokenLeft])
       | (simp only [goto, WrapperPc.left, Shared.waitView, Shared.setMon, enqueue, dequeue,
            addBlocked, WaitView.takeTokenLeft, WaitView.enqueueLeft, ERESTARTSYS]
          grind))

end Wrapper

section Calls

variable {i : Nat} {s s' : Shared K}

theorem SwitchOnPc.step_left {pc pc' : SwitchOnPc} (h : pc.step s = some (s', pc'))
    : pc'.left < pc.left := by
  unfold step at h
  repeat' split at h
  all_goals
    cases h
    try simp [left]

theorem SwitchOffPc.step_left {pc pc' : SwitchOffPc} (h : pc.step s = some (s', pc'))
    : pc'.left < pc.left := by
  unfold step at h
  repeat' split at h
  all_goals
    cases h
    try simp [left]

theorem Register.step_left {f f' : Register K} (h : f.step i s = some (s', f'))
    : f'.pc.left < f.pc.left := by
  unfold step at h
  repeat' split at h
  all_goals
    cases h
    try simp only [‹f.pc = _›, goto, RegisterPc.left]
    try omega

theorem Deregister.step_left {f f' : Deregister K} (h : f.step i s = some (s', f'))
    : f'.pc.left < f.pc.left := by
  unfold step at h
  repeat' split at h
  all_goals
    cases h
    try simp only [‹f.pc = _›, goto, DeregisterPc.left]
    try omega

theorem Task.left_lt (v : WaitView) (task : Task K) : task.thread.left v < 15 := by
  cases task
  all_goals
    simp [Task.thread, Thread.left, Wrapper.initial, WrapperPc.left, SwitchOnPc.left,
      SwitchOffPc.left, RegisterPc.left, DeregisterPc.left]

theorem Thread.step_left {ch : Choice (Task K)} {t t' : Thread K} {ev : List (Event K)}
    (h : t.step i ch s = some (s', t', ev)) : t'.left (s'.waitView i) < t.left (s.waitView i) := by
  rcases step_cases h with ⟨rfl, _, _, task, _, rfl⟩ | ⟨_, _, rfl, rfl, hs⟩
    | ⟨_, _, rfl, rfl, hs, _⟩
    | ⟨_, _, rfl, rfl, hs, _⟩ | ⟨_, _, rfl, rfl, hs, _⟩ | ⟨_, _, rfl, rfl, hs, _⟩
  . apply Task.left_lt
  . apply Wrapper.step_left hs
  . apply SwitchOnPc.step_left hs
  . apply SwitchOffPc.step_left hs
  . apply Register.step_left hs
  . apply Deregister.step_left hs

end Calls

/--
No call spins: in any run, a thread makes at most 15 steps for its call, and 15 more each time
another thread, the timer or a switch changes what its wait looks at.
-/
theorem ownSteps_bounded {c c' : Cfg K} {ls : List (Lbl K)} (i : Nat)
    (h : (throttling K).exec (fun _ _ => true) c ls = some c')
    : ownSteps i ls ≤ 15 * (1 + changes (throttling K) (Shared.waitView i) i c ls) := by
  have hle := ownSteps_le Thread.left (Shared.waitView i) Thread.left_le
    (by
      intro c ch c' hs
      obtain ⟨s, t, ev, heq, rfl⟩ := System.step_run hs
      dsimp only
      rw [Function.update_self]
      apply Thread.step_left heq) h
  have hstart := Thread.left_le (c.shared.waitView i) (c.locals i)
  omega

/-- The fourth caller goes to sleep, is woken at the end of the epoch and returns. -/
def wokenCall : List (Lbl Platform.sample) :=
  fourCalls ++ .env (.tick 250) :: .env .expire :: List.replicate 11 (.env .handler) ++ steps 4 10

theorem ownSteps_bounded_wokenCall
    : let n := changes (throttling Platform.sample) (Shared.waitView 4) 4 sampleLoaded wokenCall
      n ≠ 0 ∧ ownSteps 4 wokenCall = 22 ∧ ownSteps 4 wokenCall ≤ 15 * (1 + n) := by
  have h : (sampleRun (fun _ _ => true) wokenCall).isSome := by decide
  exact ⟨by decide, by decide, ownSteps_bounded 4 (Option.some_get h).symm⟩

def Cfg.Enabled (c : Cfg K) (i : Nat) : Prop :=
  ∃ ch c', ch.Unsignalled ∧ (throttling K).step c (.run i ch) = some c'

def Thread.running : Thread K → Bool
  | .idle => false
  | .wrapper w =>
    match w.pc with
    | .done _ => false
    | _ => true
  | .switchOn (.done _) => false
  | .switchOn _ => true
  | .switchOff (.done _) => false
  | .switchOff _ => true
  | .register f =>
    match f.pc with
    | .done _ => false
    | _ => true
  | .deregister f =>
    match f.pc with
    | .done _ => false
    | _ => true

def LockHeld (c : Cfg K) : Prop :=
  ∀ j, c.shared.writeLock = some j → (c.locals j).holds = true

section Holder

variable {i j : Nat} {s s' : Shared K}

theorem Register.step_lock {f f' : Register K} (h : f.step i s = some (s', f'))
    (hphase : f.holds = true → s.writeLock = some i)
    (howner : s.writeLock = some i → f.holds = true) (hlock : s'.writeLock = some j)
    : (j = i ∧ f'.holds = true) ∨ (j ≠ i ∧ s.writeLock = some j) := by
  unfold step at h
  repeat' split at h
  all_goals
    first
    | contradiction
    | (cases h
       simp only [holds, ‹f.pc = _›, goto, Shared.setHeap, Shared.setSys, Shared.unlock] at *
       grind)

theorem Deregister.step_lock {f f' : Deregister K} (h : f.step i s = some (s', f'))
    (hphase : f.holds = true → s.writeLock = some i)
    (howner : s.writeLock = some i → f.holds = true) (hlock : s'.writeLock = some j)
    : (j = i ∧ f'.holds = true) ∨ (j ≠ i ∧ s.writeLock = some j) := by
  unfold step at h
  repeat' split at h
  all_goals
    first
    | contradiction
    | (cases h
       simp only [holds, ‹f.pc = _›, goto, Shared.setHeap, Shared.setSys, Shared.unlock] at *
       grind)

theorem Thread.step_lock {ch : Choice (Task K)} {t t' : Thread K} {ev : List (Event K)}
    (h : t.step i ch s = some (s', t', ev)) (hphase : t.holds = true → s.writeLock = some i)
    (howner : s.writeLock = some i → t.holds = true) (hlock : s'.writeLock = some j)
    : (j = i ∧ t'.holds = true) ∨ (j ≠ i ∧ s.writeLock = some j) := by
  have hsame : s'.writeLock = s.writeLock → t.holds = false →
      (j = i ∧ t'.holds = true) ∨ (j ≠ i ∧ s.writeLock = some j) := by
    intro heq ht
    rw [heq] at hlock
    refine .inr ⟨?_, hlock⟩
    rintro rfl
    rw [howner hlock] at ht
    cases ht
  rcases step_cases h with ⟨rfl, _, rfl, _⟩ | ⟨_, _, rfl, rfl, h'⟩ | ⟨_, _, rfl, rfl, h', _⟩
    | ⟨_, _, rfl, rfl, h', _⟩ | ⟨f, f', rfl, rfl, h', _⟩ | ⟨f, f', rfl, rfl, h', _⟩
  . exact hsame rfl rfl
  . exact hsame (Wrapper.step_spec h').1.writeLock rfl
  . exact hsame (SwitchOnPc.step_frame h').sameHooks.writeLock rfl
  . exact hsame (SwitchOffPc.step_frame h').sameHooks.writeLock rfl
  . exact Register.step_lock h' hphase howner hlock
  . exact Deregister.step_lock h' hphase howner hlock

end Holder

namespace LockHeld

variable {T : SyscallTable K} {c c' : Cfg K}

theorem step (hc : Reachable K T c) (h : LockHeld c) {l : Lbl K}
    (hs : (throttling K).step c l = some c') : LockHeld c' := by
  refine System.step_marked (m := fun (s : Shared K) j => s.writeLock = some j)
    (f := fun t : Thread K => t.holds = true) h hs ?_ ?_
  . intro e s ev heq j hj
    rw [(Shared.envStep_sys heq).1] at hj
    exact hj
  . intro i ch s t ev heq j hj
    exact Thread.step_lock heq (lock_of_holds hc) (h i) hj

theorem of_reachable (h : Reachable K T c) : LockHeld c := by
  obtain ⟨stats, now, h⟩ := h
  have hboth : Reachable K T c ∧ LockHeld c := by
    apply h.invariant (I := fun c => Reachable K T c ∧ LockHeld c) ⟨⟨stats, now, .refl⟩, nofun⟩
    intro c l c' hI _ hs
    exact ⟨hI.1.step hs, hI.2.step hI.1 hs⟩
  exact hboth.2

end LockHeld

def Thread.reads : Thread K → Bool
  | .wrapper w =>
    match w.pc with
    | .statCompare _ => true
    | .statUpdate _ => true
    | _ => false
  | _ => false

def SectionsRead (c : Cfg K) : Prop :=
  ∀ j ∈ c.shared.sections, (c.locals j).reads = true

theorem Wrapper.step_sections {T : Type} {i j : Nat} {ch : Choice T} {s s' : Shared K}
    {w w' : Wrapper K} {ev : List (Event K)} (h : w.step i ch s = some (s', w', ev))
    (hsection : i ∈ s.sections → (Thread.wrapper w).reads = true) (hj : j ∈ s'.sections)
    : (j = i ∧ (Thread.wrapper w').reads = true) ∨ (j ≠ i ∧ j ∈ s.sections) := by
  unfold step at h
  repeat' split at h
  all_goals
    first
    | contradiction
    | (cases h
       simp only [Thread.reads, goto, ‹w.pc = _›, Shared.rcuReadLock, Shared.rcuReadUnlock,
         updateStats, Shared.setSys, Shared.setMon] at *
       grind)

theorem Thread.step_sections {i j : Nat} {ch : Choice (Task K)} {s s' : Shared K} {t t' : Thread K}
    {ev : List (Event K)} (h : t.step i ch s = some (s', t', ev))
    (hsection : i ∈ s.sections → t.reads = true) (hj : j ∈ s'.sections)
    : (j = i ∧ t'.reads = true) ∨ (j ≠ i ∧ j ∈ s.sections) := by
  have hsame : s'.sections = s.sections → t.reads = false →
      (j = i ∧ t'.reads = true) ∨ (j ≠ i ∧ j ∈ s.sections) := by
    intro heq ht
    rw [heq] at hj
    refine .inr ⟨?_, hj⟩
    rintro rfl
    rw [hsection hj] at ht
    cases ht
  rcases step_cases h with ⟨rfl, _, rfl, _⟩ | ⟨_, _, rfl, rfl, h'⟩ | ⟨_, _, rfl, rfl, h', _⟩
    | ⟨_, _, rfl, rfl, h', _⟩ | ⟨_, _, rfl, rfl, h', _⟩ | ⟨_, _, rfl, rfl, h', _⟩
  . exact hsame rfl rfl
  . exact Wrapper.step_sections h' hsection hj
  . exact hsame (by rw [(SwitchOnPc.step_frame h').shared]; rfl) rfl
  . exact hsame (by rw [(SwitchOffPc.step_frame h').shared]; rfl) rfl
  . exact hsame (Register.step_frame h').1.sections rfl
  . exact hsame (Deregister.step_frame h').1.sections rfl

theorem Shared.envStep_sections {s s' : Shared K} {e : EnvStep} {ev : List (Event K)}
    (h : s.envStep e = some (s', ev)) : s'.sections = s.sections := by
  rcases envStep_cases h with ⟨_, rfl, _⟩ | ⟨_, _, _, _, rfl, _⟩ | ⟨pc, _, h⟩ | ⟨_, rfl, _⟩
    | ⟨_, _, _, _, rfl, _⟩
  . rfl
  . rfl
  . exact (HandlerPc.step_frame h).sections
  . rfl
  . rfl

namespace SectionsRead

variable {T : SyscallTable K} {c c' : Cfg K}

theorem step (h : SectionsRead c) {l : Lbl K} (hs : (throttling K).step c l = some c')
    : SectionsRead c' := by
  refine System.step_marked (m := fun (s : Shared K) j => j ∈ s.sections)
    (f := fun t : Thread K => t.reads = true) h hs ?_ ?_
  . intro e s ev heq j hj
    rw [Shared.envStep_sections heq] at hj
    exact hj
  . intro i ch s t ev heq j hj
    exact Thread.step_sections heq (h i) hj

theorem of_reachable (h : Reachable K T c) : SectionsRead c := by
  obtain ⟨stats, now, h⟩ := h
  exact h.invariant (I := SectionsRead) (fun _ => nofun) fun _ _ _ hc _ hs => hc.step hs

end SectionsRead

section Enabled

variable {c : Cfg K} {i : Nat} {s : Shared K}

theorem Wrapper.enabled_or_asleep {w : Wrapper K} {s : Shared K}
    (h : (Thread.wrapper w).running = true)
    : (∃ ch : Choice (Task K), ch.Unsignalled ∧ (w.step i ch s).isSome)
      ∨ (w.pc = .sleep ∧ i ∈ s.st.mon.throttWq) := by
  cases hpc : w.pc with
  | done ret => simp [Thread.running, hpc] at h
  | direct hd =>
    left
    refine ⟨.result 0, trivial, ?_⟩
    simp only [step, hpc]
    rfl
  | callOriginal =>
    left
    cases hcall : w.toCall with
    | none =>
      refine ⟨.go, trivial, ?_⟩
      simp only [step, hpc, hcall]
      rfl
    | some hd =>
      refine ⟨.result 0, trivial, ?_⟩
      simp only [step, hpc, hcall]
      rfl
  | sleep =>
    by_cases hq : i ∈ s.st.mon.throttWq
    . exact .inr ⟨rfl, hq⟩
    . left
      refine ⟨.go, trivial, ?_⟩
      simp only [step, hpc, if_neg hq]
      rfl
  | _ =>
    left
    refine ⟨.go, trivial, ?_⟩
    simp only [step, hpc]
    first
    | rfl
    | (split <;> rfl)

theorem SwitchOnPc.isSome_step {pc : SwitchOnPc}
    (h : (Thread.switchOn pc : Thread K).running = true)
    : (pc.step s).isSome := by
  cases pc with
  | cmpxchg =>
    simp only [step]
    split <;> rfl
  | done ret => cases h
  | _ => rfl

theorem SwitchOffPc.isSome_step_or {pc : SwitchOffPc}
    (h : (Thread.switchOff pc : Thread K).running = true)
    : (pc.step s).isSome ∨ (pc = .timerDelete ∧ ∃ hpc, s.handler = some hpc) := by
  cases pc with
  | cmpxchg =>
    left
    simp only [step]
    split <;> rfl
  | timerDelete =>
    cases hhandler : s.handler with
    | none =>
      left
      simp only [step, hhandler]
      rfl
    | some hpc => exact .inr ⟨rfl, hpc, rfl⟩
  | done ret => cases h
  | _ => exact .inl rfl

theorem Register.isSome_step_or {f : Register K} (h : (Thread.register f).running = true)
    : (f.step i s).isSome ∨ (f.holds = false ∧ ∃ j, s.writeLock = some j) := by
  obtain ⟨env, n, pc⟩ := f
  cases pc with
  | alloc =>
    left
    simp only [step]
    repeat' split
    all_goals rfl
  | lock stats newHack =>
    cases hwrite : s.writeLock with
    | none =>
      left
      simp only [step, hwrite]
      rfl
    | some j => exact .inr ⟨rfl, j, rfl⟩
  | check stats newHack =>
    left
    simp only [step]
    split <;> rfl
  | done ret => cases h
  | _ => exact .inl rfl

theorem Deregister.isSome_step_or {f : Deregister K} (h : (Thread.deregister f).running = true)
    : (f.step i s).isSome ∨ (f.holds = false ∧ ∃ j, s.writeLock = some j)
      ∨ (f.holds = false ∧ ∃ x waitFor, f.pc = .free x waitFor ∧ ∃ j ∈ waitFor, j ∈ s.sections) := by
  obtain ⟨n, pc⟩ := f
  cases pc with
  | lock =>
    cases hwrite : s.writeLock with
    | none =>
      left
      simp only [step, hwrite]
      rfl
    | some j => exact .inr (.inl ⟨rfl, j, rfl⟩)
  | check =>
    left
    simp only [step]
    split <;> rfl
  | find =>
    left
    simp only [step]
    split <;> rfl
  | free x waitFor =>
    by_cases hwait : ∀ j ∈ waitFor, j ∉ s.sections
    . left
      simp only [step, if_pos hwait]
      rfl
    . push Not at hwait
      exact .inr (.inr ⟨rfl, x, waitFor, rfl, hwait⟩)
  | done ret => cases h
  | _ => exact .inl rfl

theorem enabled_of_eq {t : Thread K} (ht : c.locals i = t) (ch : Choice (Task K))
    (hch : ch.Unsignalled) (h : (t.step i ch c.shared).isSome) : c.Enabled i := by
  obtain ⟨⟨s, t', ev⟩, h⟩ := Option.isSome_iff_exists.mp h
  have hstep : (throttling K).thread i ch c.shared (c.locals i) = some (s, t', ev) := by
    rw [ht]
    exact h
  refine ⟨ch, ⟨s, Function.update c.locals i t', ev ++ c.trace⟩, hch, ?_⟩
  rw [System.step, hstep]

theorem Thread.running_of_holds {t : Thread K} (h : t.holds = true) : t.running = true := by
  cases t with
  | register f =>
    obtain ⟨env, n, pc⟩ := f
    cases pc with
    | done ret => cases h
    | _ => rfl
  | deregister f =>
    obtain ⟨n, pc⟩ := f
    cases pc with
    | done ret => cases h
    | _ => rfl
  | _ => cases h

theorem enabled_of_holds (h : (c.locals i).holds = true) : c.Enabled i := by
  have hrunning := Thread.running_of_holds h
  cases ht : c.locals i with
  | register f =>
    rw [ht] at h hrunning
    rcases Register.isSome_step_or (i := i) (s := c.shared) hrunning with hs | ⟨hf, _⟩
    . apply enabled_of_eq ht .go trivial
      rw [Thread.step, Option.isSome_map]
      exact hs
    . rw [Thread.holds, hf] at h
      cases h
  | deregister f =>
    rw [ht] at h hrunning
    rcases Deregister.isSome_step_or (i := i) (s := c.shared) hrunning with hs | hf | hf
    . apply enabled_of_eq ht .go trivial
      rw [Thread.step, Option.isSome_map]
      exact hs
    all_goals
      rw [Thread.holds, hf.1] at h
      cases h
  | _ =>
    rw [ht] at h
    cases h

theorem enabled_of_reads (h : (c.locals i).reads = true) : c.Enabled i := by
  cases ht : c.locals i with
  | wrapper w =>
    rw [ht] at h
    have hrunning : (Thread.wrapper w).running = true := by
      cases hpc : w.pc <;> simp [Thread.reads, Thread.running, hpc] at h ⊢
    rcases Wrapper.enabled_or_asleep (i := i) (s := c.shared) hrunning with ⟨ch, hch, hs⟩ | ⟨hpc, _⟩
    . apply enabled_of_eq ht ch hch
      rw [Thread.step, Option.isSome_map]
      exact hs
    . rw [Thread.reads, hpc] at h
      cases h
  | _ =>
    rw [ht] at h
    cases h

theorem exists_idle {T : SyscallTable K} (h : Reachable K T c) : ∃ j, c.locals j = .idle := by
  obtain ⟨stats, now, h⟩ := h
  obtain ⟨n, hn⟩ : ∃ n, ∀ j, n ≤ j → c.locals j = .idle := by
    apply h.invariant (I := fun c => ∃ n, ∀ j, n ≤ j → c.locals j = .idle) ⟨0, fun _ _ => rfl⟩
    intro c l c' hI _ hs
    obtain ⟨n, hn⟩ := hI
    cases l with
    | env e =>
      obtain ⟨s, ev, _, rfl⟩ := System.step_env hs
      exact ⟨n, hn⟩
    | run i ch =>
      obtain ⟨s, t, ev, _, rfl⟩ := System.step_run hs
      refine ⟨max n (i + 1), fun j hj => ?_⟩
      dsimp only
      rw [Function.update_of_ne (by omega)]
      apply hn
      omega
  exact ⟨n, hn n (Nat.le_refl n)⟩

theorem exists_holder {T : SyscallTable K} (h : Reachable K T c) (hi : (c.locals i).holds = false)
    (hlock : ∃ j, c.shared.writeLock = some j)
    : ∃ j, j ≠ i ∧ c.shared.writeLock = some j ∧ c.Enabled j := by
  obtain ⟨j, hj⟩ := hlock
  have hheld := LockHeld.of_reachable h j hj
  refine ⟨j, ?_, hj, enabled_of_holds hheld⟩
  rintro rfl
  rw [hi] at hheld
  cases hheld

/-- The call is in `synchronize_rcu`, and the section of `j`, open when it started, still is. -/
def Cfg.Synchronizes (c : Cfg K) (i j : Nat) : Prop :=
  ∃ f x waitFor, c.locals i = .deregister f ∧ f.pc = .free x waitFor ∧ j ∈ waitFor
    ∧ j ∈ c.shared.sections

/--
There is no deadlock: a call that cannot make a step waits for the holder of the lock, who can, for
a run of the timer handler, which can go on, or in `synchronize_rcu` for a reader, who can, or it is
asleep on the queue.
-/
theorem enabled_or_waits {T : SyscallTable K} (h : Reachable K T c)
    (hi : (c.locals i).running = true)
    : c.Enabled i
      ∨ (∃ j, j ≠ i ∧ c.shared.writeLock = some j ∧ c.Enabled j)
      ∨ (c.locals i = .switchOff .timerDelete
        ∧ ∃ c', (throttling K).step c (.env .handler) = some c')
      ∨ (∃ j, j ≠ i ∧ c.Synchronizes i j ∧ c.Enabled j)
      ∨ Asleep c i := by
  cases ht : c.locals i with
  | idle =>
    rw [ht] at hi
    cases hi
  | wrapper w =>
    rw [ht] at hi
    rcases Wrapper.enabled_or_asleep (i := i) (s := c.shared) hi with ⟨ch, hch, hs⟩ | ⟨hpc, hq⟩
    . left
      apply enabled_of_eq ht ch hch
      rw [Thread.step, Option.isSome_map]
      exact hs
    . right; right; right; right
      refine ⟨?_, hq⟩
      rw [ht]
      exact hpc
  | switchOn pc =>
    rw [ht] at hi
    left
    apply enabled_of_eq ht .go trivial
    rw [Thread.step, Option.isSome_map]
    exact SwitchOnPc.isSome_step hi
  | switchOff pc =>
    rw [ht] at hi
    rcases SwitchOffPc.isSome_step_or (s := c.shared) hi with hs | ⟨rfl, hpc, hhandler⟩
    . left
      apply enabled_of_eq ht .go trivial
      rw [Thread.step, Option.isSome_map]
      exact hs
    . right; right; left
      refine ⟨rfl, ⟨(hpc.step c.shared).1, c.locals, (hpc.step c.shared).2 ++ c.trace⟩, ?_⟩
      have henv : (throttling K).env .handler c.shared = some (hpc.step c.shared) := by
        simp only [throttling, Shared.envStep, hhandler, Option.map_some]
      rw [System.step, henv]
  | register f =>
    rw [ht] at hi
    rcases Register.isSome_step_or (i := i) (s := c.shared) hi with hs | ⟨hf, hlock⟩
    . left
      apply enabled_of_eq ht .go trivial
      rw [Thread.step, Option.isSome_map]
      exact hs
    . right; left
      apply exists_holder h _ hlock
      rw [ht]
      exact hf
  | deregister f =>
    rw [ht] at hi
    rcases Deregister.isSome_step_or (i := i) (s := c.shared) hi with hs | ⟨hf, hlock⟩
      | ⟨_, x, waitFor, hpc, j, hj, hsection⟩
    . left
      apply enabled_of_eq ht .go trivial
      rw [Thread.step, Option.isSome_map]
      exact hs
    . right; left
      apply exists_holder h _ hlock
      rw [ht]
      exact hf
    . have hreads := SectionsRead.of_reachable h j hsection
      right; right; right; left
      refine ⟨j, ?_, ⟨f, x, waitFor, ht, hpc, hj, hsection⟩, enabled_of_reads hreads⟩
      rintro rfl
      rw [ht] at hreads
      cases hreads

/-- Thread 4 slept until the next epoch, and thread 5 waits for it in `synchronize_rcu`. -/
def synchronizing : List (Lbl Platform.sample) :=
  fourCalls ++ .env (.tick 250) :: .env .expire :: List.replicate 11 (.env .handler) ++ steps 4 8
    ++ .run 5 (.start (.deregister 83)) :: steps 5 9

theorem isSome_synchronizing : (sampleRun (fun _ _ => true) synchronizing).isSome := by
  decide

theorem enabled_or_waits_sample
    : ∃ c, Reachable Platform.sample SyscallTable.sample c ∧ c.Synchronizes 5 4
        ∧ (c.Enabled 5
          ∨ (∃ j, j ≠ 5 ∧ c.shared.writeLock = some j ∧ c.Enabled j)
          ∨ (c.locals 5 = .switchOff .timerDelete
            ∧ ∃ c', (throttling Platform.sample).step c (.env .handler) = some c')
          ∨ (∃ j, j ≠ 5 ∧ c.Synchronizes 5 j ∧ c.Enabled j)
          ∨ Asleep c 5) := by
  have hr : Reachable Platform.sample SyscallTable.sample
      ((sampleRun (fun _ _ => true) synchronizing).get isSome_synchronizing) :=
    reachable_sampleRun isSome_synchronizing
  have hwait : ((sampleRun (fun _ _ => true) synchronizing).get
      isSome_synchronizing).Synchronizes 5 4 :=
    ⟨_, _, _, rfl, rfl, by decide, by decide⟩
  exact ⟨_, hr, hwait, enabled_or_waits hr (by decide)⟩

end Enabled

end Throttling

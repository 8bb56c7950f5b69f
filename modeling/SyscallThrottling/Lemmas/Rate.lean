import SyscallThrottling.Lemmas.Blocked
import SyscallThrottling.Lemmas.Window

/-!
This module contains the rate at which tokens are taken in the long run, whatever is done to the
monitor, and the point from which on a new limit holds.
-/

namespace Throttling

open Interleaving EpochLimiter

variable {K : Platform}

/-- The limit that the run of the handler has read and has yet to store. -/
def Shared.inFlight (s : Shared K) : Option Int :=
  s.handler.bind HandlerPc.pendingMax

structure Passes (c c' : Cfg K) (ev : List (Event K)) : Prop where
  trace : c'.trace = ev ++ c.trace
  inFlight : ∀ max, c'.shared.inFlight = some max →
    (c.shared.inFlight = some max ∧ ∀ v t, .refill v t ∉ ev)
      ∨ max = c.shared.st.mon.maxSyscallsPerSec
  stored : ∀ v t, .refill v t ∈ ev → ev = [.refill v t] ∧ c.shared.inFlight = some v

namespace Passes

variable {c c' : Cfg K} {ev : List (Event K)}

theorem of_same (htrace : c'.trace = ev ++ c.trace)
    (hhandler : c'.shared.handler = c.shared.handler)
    (hev : ∀ v t, .refill v t ∉ ev) : Passes c c' ev where
  trace := htrace
  inFlight max hmax := by
    left
    refine ⟨?_, hev⟩
    unfold Shared.inFlight at hmax ⊢
    rwa [hhandler] at hmax
  stored v t hmem := absurd hmem (hev v t)

theorem handler {pc : HandlerPc} (hpc : c.shared.handler = some pc)
    : Passes c ⟨(pc.step c.shared).1, c.locals, (pc.step c.shared).2 ++ c.trace⟩
        (pc.step c.shared).2 := by
  have hflight : c.shared.inFlight = pc.pendingMax := by
    rw [Shared.inFlight, hpc]
    rfl
  refine ⟨rfl, ?_, ?_⟩
  . intro max hmax
    rw [hflight]
    cases pc with
    | check =>
      simp only [HandlerPc.step] at hmax
      split at hmax <;> cases hmax
    | readMax =>
      cases hmax
      exact .inr rfl
    | readPeak max' currBlocked =>
      left
      simp only [HandlerPc.step] at hmax ⊢
      split at hmax
      all_goals
        cases hmax
        exact ⟨rfl, by simp [*]⟩
    | setCurr max' => cases hmax
    | wake => cases hmax
    | modTimer => cases hmax
    | _ =>
      cases hmax
      exact .inl ⟨rfl, by simp [HandlerPc.step]⟩
  . intro v t hmem
    refine ⟨HandlerPc.eq_of_refill_mem hmem, ?_⟩
    rw [hflight]
    cases pc with
    | check =>
      simp only [HandlerPc.step] at hmem
      split at hmem <;> cases hmem
    | readPeak max' currBlocked =>
      simp only [HandlerPc.step] at hmem
      split at hmem <;> cases hmem
    | _ => simp_all [HandlerPc.step, HandlerPc.pendingMax]

theorem of_step {l : Lbl K} (hs : (throttling K).step c l = some c') : ∃ ev, Passes c c' ev := by
  cases l with
  | env e =>
    obtain ⟨s, ev, heq, rfl⟩ := System.step_env hs
    refine ⟨ev, ?_⟩
    rcases Shared.envStep_cases heq with ⟨_, rfl, rfl⟩ | ⟨_, _, hhandler, _, rfl, rfl⟩
      | ⟨pc, hpc, heq⟩
      | ⟨newMax, rfl, rfl⟩ | ⟨_, _, _, _, rfl, rfl⟩
    . exact .of_same rfl rfl (by simp)
    . exact ⟨rfl, by simp [Shared.inFlight, Shared.setHandler, HandlerPc.pendingMax], by simp⟩
    . have := Passes.handler hpc
      rwa [heq] at this
    . exact .of_same rfl rfl (by simp)
    . exact .of_same rfl rfl (by simp)
  | run i ch =>
    obtain ⟨s, t, ev, heq, rfl⟩ := System.step_run hs
    refine ⟨ev, .of_same rfl (Thread.step_stats heq).2 ?_⟩
    . intro v t hmem
      have := attributed.thread heq _ hmem
      cases this

end Passes

section Bounded

variable {M : Int} {c c' : Cfg K}

structure Bounded (M : Int) (c : Cfg K) : Prop where
  stored : ∀ v t, .refill v t ∈ c.trace → v ≤ M
  inFlight : ∀ max, c.shared.inFlight = some max → max ≤ M

theorem Bounded.step (h : Bounded M c) {l : Lbl K} (hmax : c.shared.st.mon.maxSyscallsPerSec ≤ M)
    (hs : (throttling K).step c l = some c') : Bounded M c' := by
  obtain ⟨ev, hpass⟩ := Passes.of_step hs
  constructor
  . intro v t hmem
    rw [hpass.trace, List.mem_append] at hmem
    rcases hmem with hmem | hmem
    . apply h.inFlight
      apply (hpass.stored v t hmem).2
    . apply h.stored v t hmem
  . intro max hflight
    rcases hpass.inFlight max hflight with ⟨hflight, _⟩ | rfl
    . apply h.inFlight max hflight
    . exact hmax

theorem mem_tokenLog {v : Int} {t : Nat} {trace : List (Event K)}
    (h : Entry.refill v t ∈ tokenLog trace) : .refill v t ∈ trace := by
  obtain ⟨x, hx, hentry⟩ := List.mem_filterMap.mp h
  cases x with
  | refill v' t' =>
    cases hentry
    exact hx
  | token i t => cases hentry
  | _ => cases hentry

/--
`timer_setup`, which does not take an armed timer off the queue of the kernel, never meets one.
-/
def SetsUpUnarmed (c : Cfg K) : Lbl K → Prop
  | .env _ => True
  | .run i _ => c.locals i = .switchOn .timerSetup → c.shared.st.mon.epochTimer = none

/--
The rate in the long run. Whenever the monitor is switched and its limit is changed, `k` seconds
hold at most `k + 1` times the highest limit there was, wherever they lie, as long as no call sets
the timer up while it is armed.
-/
theorem tokens_le (T : SyscallTable K) (stats : Ptr → SyscallStats)
    (now : Nat) {M : Int} {c : Cfg K} (hM : 3 ≤ M)
    (hrun : (throttling K).Run
      (fun c l => c.shared.st.mon.maxSyscallsPerSec ≤ M ∧ SetsUpUnarmed c l)
      (loaded K T stats now) c) (a k : Nat)
    : ((tokenLog c.trace).inWindow a (k * K.HZ) : Int) ≤ (k + 1) * M := by
  have hacc := Accounts.of_reachable ⟨stats, now, hrun.reaches⟩
  have h0 : Bounded M (loaded K T stats now) :=
    ⟨by simp [loaded], by simp [Shared.inFlight, loaded]⟩
  have hbounded : Bounded M c := hrun.invariant h0 fun _ _ _ h hg hs => h.step hg.1 hs
  have hcapped : Log.Capped M.toNat (tokenLog c.trace) := by
    intro v t hmem
    have := hbounded.stored v t (mem_tokenLog hmem)
    omega
  have hle := hacc.valid.inWindow_le_epochs K.HZ_pos (by decide) (by omega) hcapped a k
  have hcast : ((M.toNat : Nat) : Int) = M := by omega
  calc
    ((tokenLog c.trace).inWindow a (k * K.HZ) : Int) ≤ ((k + 1) * M.toNat : Nat) := by
      exact_mod_cast hle
    _ = (k + 1) * M := by
      push_cast
      rw [hcast]

def unarmedBelow (M : Int) (c : Cfg K) : Lbl K → Bool
  | .env _ => c.shared.st.mon.maxSyscallsPerSec ≤ M
  | .run i _ =>
    match c.locals i with
    | .switchOn .timerSetup =>
      c.shared.st.mon.maxSyscallsPerSec ≤ M && c.shared.st.mon.epochTimer = none
    | _ => c.shared.st.mon.maxSyscallsPerSec ≤ M

theorem setsUpUnarmed_of_unarmedBelow {l : Lbl K} (h : unarmedBelow M c l = true)
    : c.shared.st.mon.maxSyscallsPerSec ≤ M ∧ SetsUpUnarmed c l := by
  cases l with
  | env e => exact ⟨of_decide_eq_true h, trivial⟩
  | run i ch =>
    simp only [unarmedBelow] at h
    split at h
    . simp only [Bool.and_eq_true, decide_eq_true_eq] at h
      exact ⟨h.1, fun _ => h.2⟩
    . next hi => exact ⟨of_decide_eq_true h, fun heq => absurd heq hi⟩

/-- The monitor is switched off and on between the two bursts. -/
def burstAcrossSwitch : List (Lbl Platform.sample) :=
  sampleSetup ++ .env (.tick 249)
    :: (sampleCall 1 :: steps 1 5) ++ (sampleCall 2 :: steps 2 5) ++ (sampleCall 3 :: steps 3 5)
    ++ (.run 4 (.start .switchOff) :: steps 4 5) ++ (.run 5 (.start .switchOn) :: steps 5 4)
    ++ .env (.tick 250) :: .env .expire :: List.replicate 8 (.env .handler)
    ++ (sampleCall 6 :: steps 6 5)

theorem isSome_burstAcrossSwitch : (sampleRun (unarmedBelow 3) burstAcrossSwitch).isSome := by
  decide

theorem tokens_le_burstAcrossSwitch
    : ∃ c : Cfg Platform.sample, (tokenLog c.trace).inWindow 249 (2 * 250) = 4
        ∧ ∀ a k, ((tokenLog c.trace).inWindow a (k * 250) : Int) ≤ (k + 1) * 3 :=
  ⟨_, by decide, tokens_le SyscallTable.sample (fun _ => .zero) 0 (M := 3) (by decide)
    ((System.run_exec_get isSome_burstAcrossSwitch).mono fun _ _ => setsUpUnarmed_of_unarmedBelow)⟩

end Bounded

section Follows

variable {m : Int} {c₀ c c' : Cfg K} {seg : List (Event K)}

/--
The limit `m` holds since `c₀`: only a run of the handler that was in progress then may store an
older one, and it does so before all others.
-/
structure Follows (m : Int) (c₀ c : Cfg K) (seg : List (Event K)) : Prop where
  trace : c.trace = seg ++ c₀.trace
  stored : ∀ newer v t older, seg = newer ++ .refill v t :: older →
    v = m ∨ (c₀.shared.inFlight = some v ∧ ∀ v' t', .refill v' t' ∉ older)
  inFlight : ∀ max, c.shared.inFlight = some max →
    max = m ∨ (c₀.shared.inFlight = some max ∧ ∀ v' t', .refill v' t' ∉ seg)

theorem Follows.refl (m : Int) (c : Cfg K) : Follows m c c [] where
  trace := rfl
  stored newer v t older heq := by simp at heq
  inFlight max hmax := .inr ⟨hmax, by simp⟩

theorem Follows.step (h : Follows m c₀ c seg) {l : Lbl K}
    (hmax : c.shared.st.mon.maxSyscallsPerSec = m)
    (hs : (throttling K).step c l = some c') : ∃ seg', Follows m c₀ c' seg' := by
  obtain ⟨ev, hpass⟩ := Passes.of_step hs
  refine ⟨ev ++ seg, ?_, ?_, ?_⟩
  . rw [hpass.trace, h.trace, List.append_assoc]
  . intro newer v t older heq
    rcases List.append_eq_append_iff.mp heq with ⟨mid, _, hseg⟩ | ⟨mid, hev, hrest⟩
    . apply h.stored mid v t older hseg
    . cases mid with
      | nil =>
        apply h.stored [] v t older
        exact hrest.symm
      | cons x mid =>
        obtain ⟨rfl, hrest⟩ := List.cons.inj hrest
        -- this step stores what was in flight before it
        obtain ⟨hone, hflight⟩ := hpass.stored v t (by simp [hev])
        have hmid : mid = [] := by
          rw [hone] at hev
          cases newer with
          | nil => simpa using hev.symm
          | cons y newer => simp at hev
        have holder : older = seg := by
          rw [hmid] at hrest
          simpa using hrest
        rw [holder]
        apply h.inFlight v hflight
  . intro max hflight
    rcases hpass.inFlight max hflight with ⟨hflight, hno⟩ | hnew
    . rcases h.inFlight max hflight with heq | ⟨hold, hnone⟩
      . exact .inl heq
      . right
        refine ⟨hold, ?_⟩
        intro v t hmem
        rcases List.mem_append.mp hmem with hmem | hmem
        . apply hno v t hmem
        . apply hnone v t hmem
    . exact .inl (hnew.trans hmax)

theorem setMax_limit {newMax : Int} (hpos : 0 < newMax)
    (hs : (throttling K).step c (.env (.setMax newMax)) = some c')
    : c'.shared.st.mon.maxSyscallsPerSec = newMax ∧ c'.shared.inFlight = c.shared.inFlight := by
  obtain ⟨s, ev, heq, rfl⟩ := System.step_env hs
  cases heq
  unfold Monitor.setMaxSyscall
  rw [if_neg (by omega)]
  exact ⟨rfl, rfl⟩

theorem envStep_max {s s' : Shared K} {e : EnvStep} {ev : List (Event K)}
    (he : ∀ newMax, e ≠ .setMax newMax) (h : s.envStep e = some (s', ev))
    : s'.st.mon.maxSyscallsPerSec = s.st.mon.maxSyscallsPerSec := by
  cases e with
  | setMax newMax => exact absurd rfl (he newMax)
  | tick d =>
    cases h
    rfl
  | handler =>
    obtain ⟨pc, _, h⟩ := Option.map_eq_some_iff.mp h
    rw [(HandlerPc.step_frame h).mon]
  | expire =>
    simp only [Shared.envStep] at h
    repeat' split at h
    all_goals cases h
    rfl
  | registerUid env uid =>
    obtain ⟨_, rfl, _⟩ := Shared.eq_of_locked h
    obtain ⟨_, _, hframe⟩ := registerUserId_frame env uid s.st
    rw [hframe]
  | deregisterUid uid =>
    obtain ⟨_, rfl, _⟩ := Shared.eq_of_locked h
    obtain ⟨_, _, hframe⟩ := deregisterUserId_frame uid s.st
    rw [hframe]
  | registerProg env name =>
    obtain ⟨_, rfl, _⟩ := Shared.eq_of_locked h
    obtain ⟨_, _, hframe⟩ := registerProgName_frame env name s.st
    rw [hframe]
  | deregisterProg name =>
    obtain ⟨_, rfl, _⟩ := Shared.eq_of_locked h
    obtain ⟨_, _, hframe⟩ := deregisterProgName_frame name s.st
    rw [hframe]

theorem max_of_step {l : Lbl K} (hl : ∀ newMax, l ≠ .env (.setMax newMax))
    (hs : (throttling K).step c l = some c')
    : c'.shared.st.mon.maxSyscallsPerSec = c.shared.st.mon.maxSyscallsPerSec := by
  cases l with
  | env e =>
    obtain ⟨s, ev, heq, rfl⟩ := System.step_env hs
    apply envStep_max _ heq
    rintro newMax rfl
    exact hl newMax rfl
  | run i ch =>
    obtain ⟨s, t, ev, heq, rfl⟩ := System.step_run hs
    exact Thread.step_max heq

/--
A new limit holds from the next refill on, or from the one after it if a run of the handler was past
the read of the limit when it was set.
-/
theorem refills_follow_limit {c₁ : Cfg K} {newMax : Int} (hpos : 0 < newMax)
    (hset : (throttling K).step c₁ (.env (.setMax newMax)) = some c₀)
    (hrun : (throttling K).Run (fun _ l => ∀ max, l ≠ .env (.setMax max)) c₀ c)
    : ∃ seg, c.trace = seg ++ c₀.trace ∧ ∀ newer v t older, seg = newer ++ .refill v t :: older →
        v = newMax ∨ (c₁.shared.inFlight = some v ∧ ∀ v' t', .refill v' t' ∉ older) := by
  obtain ⟨hmax, hflight⟩ := setMax_limit hpos hset
  obtain ⟨seg, h, _⟩ : ∃ seg, Follows newMax c₀ c seg
      ∧ c.shared.st.mon.maxSyscallsPerSec = newMax := by
    apply hrun.invariant (I := fun c => ∃ seg, Follows newMax c₀ c seg
      ∧ c.shared.st.mon.maxSyscallsPerSec = newMax) ⟨[], .refl newMax c₀, hmax⟩
    intro c l c' hI hl hs
    obtain ⟨seg, h, hmax⟩ := hI
    obtain ⟨seg', h'⟩ := h.step hmax hs
    exact ⟨seg', h', (max_of_step hl hs).trans hmax⟩
  rw [← hflight]
  exact ⟨seg, h.trace, h.stored⟩

def noSetMax (_ : Cfg K) : Lbl K → Bool
  | .env (.setMax _) => false
  | _ => true

/-- The run of the handler has read the limit of 3, and then the limit is set to 5. -/
def pastRead : List (Lbl Platform.sample) :=
  .env (.tick 250) :: .env .expire :: List.replicate 2 (.env .handler)

theorem isSome_pastRead : (sampleRun (fun _ _ => true) pastRead).isSome := by
  decide

theorem isSome_setMax_pastRead
    : ((throttling Platform.sample).step
      ((sampleRun (fun _ _ => true) pastRead).get isSome_pastRead) (.env (.setMax 5))).isSome := by
  decide

def twoRefills : List (Lbl Platform.sample) :=
  List.replicate 8 (.env .handler) ++ .env (.tick 250) :: .env .expire
    :: List.replicate 8 (.env .handler)

theorem isSome_twoRefills
    : ((throttling Platform.sample).exec noSetMax
      (((throttling Platform.sample).step
        ((sampleRun (fun _ _ => true) pastRead).get isSome_pastRead)
        (.env (.setMax 5))).get isSome_setMax_pastRead) twoRefills).isSome := by
  decide

theorem refills_follow_limit_pastRead
    : ∃ c₁ c : Cfg Platform.sample, .refill 3 250 ∈ c.trace ∧ .refill 5 500 ∈ c.trace
        ∧ ∃ seg, c.trace = seg ++ c₁.trace
          ∧ ∀ newer v t older, seg = newer ++ .refill v t :: older →
            v = 5 ∨ (c₁.shared.inFlight = some v ∧ ∀ v' t', .refill v' t' ∉ older) := by
  have hset : (throttling Platform.sample).step
      ((sampleRun (fun _ _ => true) pastRead).get isSome_pastRead) (.env (.setMax 5)) = some _ :=
    (Option.some_get isSome_setMax_pastRead).symm
  refine ⟨_, _, ?_, ?_, refills_follow_limit (by decide) hset
    ((System.run_exec_get isSome_twoRefills).mono ?_)⟩
  . decide
  . decide
  . intro c l hl max heq
    rw [heq] at hl
    cases hl

end Follows

end Throttling

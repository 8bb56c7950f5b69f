import SyscallThrottling.Lemmas.Wakeup
import SyscallThrottling.Lib.Dwell

/-!
This module contains the meaning of the delay of a call: the time that the call has spent blocked,
over all of its waits. A recorded peak is the delay of such a call, so that no peak is longer than
the module is loaded.
-/

namespace Throttling

open Interleaving

variable {K : Platform}

/-- From the read of `start_time` to the update of `delay`. -/
def WrapperPc.timed : WrapperPc → Bool
  | .enqueue => true
  | .testMonitor => true
  | .testTokens => true
  | .sleep => true
  | .decBlocked _ => true
  | .addDelay => true
  | _ => false

def Thread.timed : Thread K → Bool
  | .wrapper w => w.pc.timed
  | _ => false

def Shared.jiffies (s : Shared K) : Nat :=
  s.st.mon.jiffies

def Cfg.blockedTime (c : Cfg K) (i : Nat) (ls : List (Lbl K)) : Nat :=
  dwell (throttling K) Shared.jiffies Thread.timed c i ls

/-- What `delay` and `start_time` say about a call that has been blocked for `d` jiffies. -/
def Wrapper.Waited (w : Wrapper K) (d : Nat) (now : UInt64) : Prop :=
  match w.pc with
  | .done _ => True
  | pc => if pc.timed then w.delay + (now - w.startTime) = .ofNat d else w.delay = .ofNat d

def WrapperPc.settled : WrapperPc → Bool
  | .callOriginal => true
  | .done _ => true
  | _ => false

def Thread.settled : Thread K → Bool
  | .wrapper w => w.pc.settled
  | _ => false

def Thread.Waited (t : Thread K) (d : Nat) (now : UInt64) : Prop :=
  match t with
  | .idle => d = 0
  | .wrapper w => w.Waited d now
  | _ => True

section Step

variable {d : Nat} {now : UInt64}

theorem Thread.Waited.tick {t : Thread K} (h : t.Waited d now) (e : Nat)
    : t.Waited (d + if t.timed then e else 0) (now + .ofNat e) := by
  cases t with
  | idle => exact h
  | wrapper w =>
    obtain ⟨regs, euid, comm, pc, needMon, toCall, startTime, delay⟩ := w
    cases pc
    all_goals
      simp only [Thread.Waited, Wrapper.Waited, Thread.timed, WrapperPc.timed, if_true, if_false,
        Bool.false_eq_true, Nat.add_zero, UInt64.ofNat_add] at h ⊢
      try rw [← h]
      try grind
  | _ => trivial

theorem Thread.settled_of_ne_idle {t : Thread K} (h : t.settled = true) : t.timed = false := by
  cases t with
  | wrapper w =>
    simp only [settled, timed] at h ⊢
    revert h
    cases w.pc <;> simp [WrapperPc.settled, WrapperPc.timed]
  | _ => rfl

namespace Wrapper

variable {T : Type} {i : Nat} {ch : Choice T} {s s' : Shared K} {w w' : Wrapper K}
  {ev : List (Event K)}

theorem Waited.delay_eq (h : w.Waited d now) (htimed : w.pc.timed = false)
    (hdone : ∀ ret, w.pc ≠ .done ret) : w.delay = .ofNat d := by
  unfold Waited at h
  split at h
  . next ret heq => exact absurd heq (hdone ret)
  . next pc hpc =>
    rw [htimed] at h
    exact h

theorem waited_tail (h : w.delay = .ofNat d) : w.tail.Waited d now := by
  unfold tail
  split <;> exact h

theorem step_waited (h : w.step i ch s = some (s', w', ev))
    (hw : w.Waited d s.st.mon.jiffiesUlong) : w'.Waited d s.st.mon.jiffiesUlong := by
  unfold step at h
  repeat' split at h
  all_goals
    first
    | contradiction
    | (cases h
       simp only [Waited, ‹w.pc = _›, WrapperPc.timed, if_true, if_false, Bool.false_eq_true] at hw
       first
       | exact waited_tail hw
       | exact hw
       | trivial
       | (simp only [Waited, goto, WrapperPc.timed, if_true, UInt64.sub_self, UInt64.add_zero]
          exact hw))

theorem step_settled (h : w.step i ch s = some (s', w', ev)) (hw : w.pc.settled = true)
    : w'.pc.settled = true := by
  unfold step at h
  repeat' split at h
  all_goals
    first
    | contradiction
    | (cases h
       simp only [‹w.pc = _›, WrapperPc.settled, Bool.false_eq_true] at hw
       try rfl)

theorem step_sys (h : w.step i ch s = some (s', w', ev)) (hpc : ∀ q, w.pc ≠ .statUpdate q)
    : s'.st.sys = s.st.sys := by
  unfold step at h
  repeat' split at h
  all_goals
    first
    | contradiction
    | exact absurd ‹w.pc = .statUpdate _› (hpc _)
    | (cases h
       rfl)

theorem step_peakDelay (h : w.step i ch s = some (s', w', ev))
    (hw : w.Waited d s.st.mon.jiffiesUlong) (p : Ptr)
    : (s'.st.sys.stats p).peakDelay = (s.st.sys.stats p).peakDelay
      ∨ (w'.pc.settled = true ∧ (s'.st.sys.stats p).peakDelay = .ofNat d) := by
  by_cases hpc : ∃ q, w.pc = .statUpdate q
  . obtain ⟨q, hpc⟩ := hpc
    cases ch with
    | go =>
      simp only [step, hpc, Option.some.injEq, Prod.mk.injEq] at h
      obtain ⟨rfl, rfl, _⟩ := h
      simp only [Waited, hpc, WrapperPc.timed, if_false, Bool.false_eq_true] at hw
      by_cases hp : p = q
      . right
        subst hp
        refine ⟨rfl, ?_⟩
        rw [← hw]
        simp [updateStats, Shared.setSys]
      . left
        simp [updateStats, Shared.setSys, hp]
    | _ => simp [step, hpc] at h
  . left
    rw [step_sys h (fun q hq => hpc ⟨q, hq⟩)]

end Wrapper

end Step

section Frame

variable {i : Nat} {s s' : Shared K}

theorem Register.step_peakDelay {f f' : Register K} (h : f.step i s = some (s', f'))
    {x : HackedSyscall K} (hx : x ∈ s'.st.sys.hackedSyscallHash.toList)
    : (s'.st.sys.stats x.stats).peakDelay = 0
      ∨ (x ∈ s.st.sys.hackedSyscallHash.toList
        ∧ (s'.st.sys.stats x.stats).peakDelay = (s.st.sys.stats x.stats).peakDelay) := by
  by_cases hpc : ∃ node, f.pc = .hash node
  . obtain ⟨node, hpc⟩ := hpc
    simp only [step, hpc, Option.some.injEq, Prod.mk.injEq] at h
    obtain ⟨rfl, _⟩ := h
    simp only [Shared.setSys, SyscallRegistry.hashAdd, HashTable.mem_toList_add] at hx ⊢
    by_cases hp : x.stats = node.stats
    . left
      rw [hp, Function.update_self]
      rfl
    . right
      refine ⟨?_, by rw [Function.update_of_ne hp]⟩
      rcases hx with rfl | hx
      . exact absurd rfl hp
      . exact hx
  . right
    unfold step at h
    repeat' split at h
    all_goals
      first
      | contradiction
      | exact absurd ⟨_, ‹f.pc = .hash _›⟩ hpc
      | (cases h
         exact ⟨hx, rfl⟩)

theorem Deregister.step_peakDelay {f f' : Deregister K} (h : f.step i s = some (s', f'))
    : s'.st.sys.stats = s.st.sys.stats
      ∧ ∀ x ∈ s'.st.sys.hackedSyscallHash.toList, x ∈ s.st.sys.hackedSyscallHash.toList := by
  unfold step at h
  repeat' split at h
  all_goals
    first
    | contradiction
    | (cases h
       refine ⟨rfl, ?_⟩
       intro x hx
       first
       | exact hx
       | (simp only [Shared.setSys, SyscallRegistry.hashDel, HashTable.mem_toList,
            HashTable.bucket_del] at hx ⊢
          obtain ⟨b, hx⟩ := hx
          exact ⟨b, List.mem_of_mem_erase hx⟩))

theorem Shared.envStep_clock {e : EnvStep} {ev : List (Event K)} (h : s.envStep e = some (s', ev))
    : ∃ d, s'.st.mon.jiffies = s.st.mon.jiffies + d := by
  rcases envStep_cases h with ⟨d, rfl, _⟩ | ⟨_, _, _, _, rfl, _⟩ | ⟨pc, _, h⟩ | ⟨newMax, rfl, _⟩
    | ⟨_, _, _, _, rfl, _⟩
  . exact ⟨d, rfl⟩
  . exact ⟨0, rfl⟩
  . refine ⟨0, ?_⟩
    rw [(HandlerPc.step_frame h).mon]
    rfl
  . refine ⟨0, ?_⟩
    simp only [Shared.setMon, Monitor.setMaxSyscall]
    split <;> rfl
  . exact ⟨0, rfl⟩

end Frame

def Attained (D : Nat → Nat) (c : Cfg K) (d : UInt64) : Prop :=
  d = 0 ∨ ∃ j, (c.locals j).settled = true ∧ d = .ofNat (D j)

/-- `D` tells how long each of the calls has been blocked. -/
structure Blames (D : Nat → Nat) (c : Cfg K) : Prop where
  waits : ∀ i, (c.locals i).Waited (D i) c.shared.st.mon.jiffiesUlong
  peaks : ∀ x ∈ c.shared.st.sys.hackedSyscallHash.toList,
    Attained D c (c.shared.st.sys.stats x.stats).peakDelay

theorem Attained.mono {D D' : Nat → Nat} {c c' : Cfg K} {d : UInt64} (h : Attained D c d)
    (hkeep : ∀ j, (c.locals j).settled = true → (c'.locals j).settled = true ∧ D' j = D j)
    : Attained D' c' d := by
  rcases h with h0 | ⟨j, hj, hd⟩
  . exact .inl h0
  . obtain ⟨hj', heq⟩ := hkeep j hj
    right
    refine ⟨j, hj', ?_⟩
    rw [heq]
    exact hd

namespace Blames

variable {D : Nat → Nat} {c : Cfg K}

theorem loaded (T : SyscallTable K) (stats : Ptr → SyscallStats) (now : Nat)
    : Blames (fun _ => 0) (loaded K T stats now) where
  waits _ := rfl
  peaks x hx := by
    rw [show (Throttling.loaded K T stats now).shared.st.sys.hackedSyscallHash = .empty from rfl,
      HashTable.toList_empty] at hx
    cases hx

theorem envStep (h : Blames D c) {e : EnvStep} {s : Shared K} {ev : List (Event K)}
    (hs : c.shared.envStep e = some (s, ev))
    : Blames (fun i => D i + advance Shared.jiffies Thread.timed c ⟨s, c.locals, ev ++ c.trace⟩ i)
        ⟨s, c.locals, ev ++ c.trace⟩ where
  waits := by
    intro i
    obtain ⟨d, hd⟩ := Shared.envStep_clock hs
    have hnow : s.st.mon.jiffiesUlong = c.shared.st.mon.jiffiesUlong + .ofNat d := by
      rw [Monitor.jiffiesUlong, hd]
      apply UInt64.ofNat_add
    have hadvance : s.jiffies - c.shared.jiffies = d := by
      unfold Shared.jiffies
      omega
    have hwait := (h.waits i).tick d
    rw [← hnow, ← hadvance] at hwait
    exact hwait
  peaks := by
    intro x hx
    rw [(Shared.envStep_sys hs).2] at hx ⊢
    apply (h.peaks x hx).mono
    intro j hj
    refine ⟨hj, ?_⟩
    rw [advance_of_outside (Thread.settled_of_ne_idle hj), Nat.add_zero]

variable {i : Nat} {s : Shared K} {t : Thread K} {ev : List (Event K)}

theorem update (h : Blames D c) (hnow : s.jiffies = c.shared.jiffies)
    (hwait : t.Waited (D i) c.shared.st.mon.jiffiesUlong)
    (hsettled : (c.locals i).settled = true → t.settled = true)
    (hpeaks : ∀ x ∈ s.st.sys.hackedSyscallHash.toList, (s.st.sys.stats x.stats).peakDelay = 0
      ∨ (t.settled = true ∧ (s.st.sys.stats x.stats).peakDelay = .ofNat (D i))
      ∨ (x ∈ c.shared.st.sys.hackedSyscallHash.toList
        ∧ (s.st.sys.stats x.stats).peakDelay = (c.shared.st.sys.stats x.stats).peakDelay))
    : Blames D ⟨s, Function.update c.locals i t, ev⟩ where
  waits := by
    intro j
    have hulong : s.st.mon.jiffiesUlong = c.shared.st.mon.jiffiesUlong := by
      rw [Monitor.jiffiesUlong, show s.st.mon.jiffies = c.shared.st.mon.jiffies from hnow]
      rfl
    dsimp only
    rw [hulong]
    by_cases hj : j = i
    . subst hj
      rw [Function.update_self]
      exact hwait
    . rw [Function.update_of_ne hj]
      apply h.waits
  peaks := by
    intro x hx
    rcases hpeaks x hx with h0 | ⟨ht, hd⟩ | ⟨hmem, heq⟩
    . exact .inl h0
    . right
      refine ⟨i, ?_, hd⟩
      dsimp only
      rw [Function.update_self]
      exact ht
    . rw [heq]
      apply (h.peaks x hmem).mono
      intro j hj
      refine ⟨?_, rfl⟩
      dsimp only
      by_cases hji : j = i
      . subst hji
        rw [Function.update_self]
        apply hsettled hj
      . rw [Function.update_of_ne hji]
        exact hj

theorem step (h : Blames D c) {l : Lbl K} {c' : Cfg K} (hs : (throttling K).step c l = some c')
    : Blames (fun i => D i + advance Shared.jiffies Thread.timed c c' i) c' := by
  cases l with
  | env e =>
    obtain ⟨s, ev, heq, rfl⟩ := System.step_env hs
    apply h.envStep heq
  | run i ch =>
    have hwait := h.waits i
    have hupdate := @update K D c i
    obtain ⟨s, t, ev, heq, rfl⟩ := System.step_run hs
    have hnow := Thread.step_clock heq
    have hstill : (fun j => D j + advance Shared.jiffies Thread.timed c
        ⟨s, Function.update c.locals i t, ev ++ c.trace⟩ j) = D := by
      funext j
      rw [advance_of_clock_eq hnow, Nat.add_zero]
    rw [hstill]
    rcases Thread.step_cases heq with ⟨hi, _, rfl, task, _, rfl⟩ | ⟨w, w', hi, rfl, h'⟩
      | ⟨_, pc, hi, rfl, h', _⟩ | ⟨_, pc, hi, rfl, h', _⟩ | ⟨_, f, hi, rfl, h', _⟩
      | ⟨_, f, hi, rfl, h', _⟩
    . rw [hi] at hwait hupdate
      apply hupdate h hnow _ nofun (fun x hx => .inr (.inr ⟨hx, rfl⟩))
      cases task with
      | syscall regs euid comm =>
        rw [show D i = 0 from hwait]
        rfl
      | _ => trivial
    . rw [hi] at hwait hupdate
      apply hupdate (t := .wrapper w') h hnow (Wrapper.step_waited h' hwait)
        (Wrapper.step_settled h')
      intro x hx
      rw [(Wrapper.step_spec h').1.sys] at hx
      rcases Wrapper.step_peakDelay h' hwait x.stats with hp | hp
      . exact .inr (.inr ⟨hx, hp⟩)
      . exact .inr (.inl hp)
    . rw [hi] at hupdate
      apply hupdate (t := .switchOn pc) h hnow trivial nofun
      rw [(SwitchOnPc.step_frame h').shared]
      exact fun x hx => .inr (.inr ⟨hx, rfl⟩)
    . rw [hi] at hupdate
      apply hupdate (t := .switchOff pc) h hnow trivial nofun
      rw [(SwitchOffPc.step_frame h').shared]
      exact fun x hx => .inr (.inr ⟨hx, rfl⟩)
    . rw [hi] at hupdate
      apply hupdate (t := .register f) h hnow trivial nofun
      intro x hx
      rcases Register.step_peakDelay h' hx with h0 | hp
      . exact .inl h0
      . exact .inr (.inr hp)
    . rw [hi] at hupdate
      apply hupdate (t := .deregister f) h hnow trivial nofun
      intro x hx
      obtain ⟨hstats, hmem⟩ := Deregister.step_peakDelay h'
      rw [hstats]
      exact .inr (.inr ⟨hmem x hx, rfl⟩)

theorem of_exec {T : SyscallTable K} {stats : Ptr → SyscallStats} {now : Nat} {ls : List (Lbl K)}
    (h : (throttling K).exec (fun _ _ => true) (Throttling.loaded K T stats now) ls = some c)
    : Blames (fun i => (Throttling.loaded K T stats now).blockedTime i ls) c := by
  have hrun := dwell_invariant Blames (fun hI hs => hI.step hs) (.loaded T stats now) h
  simp only [Nat.zero_add] at hrun
  exact hrun

end Blames

theorem clock_le {c c' : Cfg K} {l : Lbl K} (h : (throttling K).step c l = some c')
    : c.shared.jiffies ≤ c'.shared.jiffies := by
  cases l with
  | env e =>
    obtain ⟨s, ev, heq, rfl⟩ := System.step_env h
    obtain ⟨d, hd⟩ := Shared.envStep_clock heq
    unfold Shared.jiffies
    dsimp only
    omega
  | run i ch =>
    obtain ⟨s, t, ev, heq, rfl⟩ := System.step_run h
    exact (Thread.step_clock heq).ge

section Delay

variable (T : SyscallTable K) (stats : Ptr → SyscallStats)
  (now : Nat) {c : Cfg K} {ls : List (Lbl K)}

theorem blockedTime_le
    (h : (throttling K).exec (fun _ _ => true) (loaded K T stats now) ls = some c) (i : Nat)
    : (loaded K T stats now).blockedTime i ls ≤ c.shared.st.mon.jiffies - now := by
  have hle := dwell_le Thread.timed clock_le h i
  have hstart : (loaded K T stats now).shared.jiffies = now := rfl
  have hend : c.shared.jiffies = c.shared.st.mon.jiffies := rfl
  unfold Cfg.blockedTime
  omega

/--
In any run, the delay a call has added up while it does not wait is the number of jiffies that it
was blocked, from each read of `start_time` to the update of `delay` that follows it.
-/
theorem delay_eq_blockedTime
    (h : (throttling K).exec (fun _ _ => true) (loaded K T stats now) ls = some c) {i : Nat}
    {w : Wrapper K} (hw : c.locals i = .wrapper w) (htimed : w.pc.timed = false)
    (hdone : ∀ ret, w.pc ≠ .done ret)
    : w.delay = .ofNat ((loaded K T stats now).blockedTime i ls) := by
  have hwait := (Blames.of_exec h).waits i
  rw [hw] at hwait
  apply Wrapper.Waited.delay_eq hwait htimed hdone

/--
The fourth caller sleeps until the next epoch, and is about to enter the original system call.
-/
def delayedCall : List (Lbl Platform.sample) :=
  fourCalls ++ .env (.tick 250) :: .env .expire :: List.replicate 11 (.env .handler) ++ steps 4 10

theorem isSome_delayedCall : (sampleRun (fun _ _ => true) delayedCall).isSome := by
  decide

theorem delay_eq_blockedTime_sample
    : ∃ c w, sampleRun (fun _ _ => true) delayedCall = some c ∧ c.locals 4 = .wrapper w
      ∧ w.delay = 250 ∧ w.delay = .ofNat (sampleLoaded.blockedTime 4 delayedCall) := by
  have h := (Option.some_get isSome_delayedCall).symm
  refine ⟨_, _, h, rfl, by decide, ?_⟩
  exact delay_eq_blockedTime SyscallTable.sample (fun _ => .zero) 0 h rfl (by decide)
    (fun _ => nofun)

/--
The peak a query finds for a system call is 0 or the time some call was blocked, and never more than
the time since the module was loaded.
-/
theorem peakDelay_blockedTime
    (h : (throttling K).exec (fun _ _ => true) (loaded K T stats now) ls = some c)
    {n : Fin K.nrSyscalls} {x : HackedSyscall K} (hx : c.shared.st.sys.lookup n = some x)
    : ((c.shared.st.sys.stats x.stats).peakDelay = 0
        ∨ ∃ j, (c.locals j).settled = true
          ∧ (c.shared.st.sys.stats x.stats).peakDelay
            = .ofNat ((loaded K T stats now).blockedTime j ls))
      ∧ (c.shared.st.sys.stats x.stats).peakDelay.toNat ≤ c.shared.st.mon.jiffies - now := by
  have hpeak := (Blames.of_exec h).peaks x (HashTable.mem_toList_of_find? hx)
  refine ⟨hpeak, ?_⟩
  rcases hpeak with h0 | ⟨j, _, hd⟩
  . rw [h0]
    apply Nat.zero_le
  . rw [hd]
    apply Nat.le_trans (Nat.mod_le _ _)
    apply blockedTime_le T stats now h

theorem isSome_lookup_delayedCall
    : (((sampleRun (fun _ _ => true) delayedCall).get isSome_delayedCall).shared.st.sys.lookup
        sampleRegs.origAx).isSome := by
  decide

theorem peakDelay_blockedTime_sample
    : ∃ c x, sampleRun (fun _ _ => true) delayedCall = some c
      ∧ c.shared.st.sys.lookup sampleRegs.origAx = some x
      ∧ (c.shared.st.sys.stats x.stats).peakDelay = 250
      ∧ ((c.shared.st.sys.stats x.stats).peakDelay = 0
        ∨ ∃ j, (c.locals j).settled = true
          ∧ (c.shared.st.sys.stats x.stats).peakDelay
            = .ofNat (sampleLoaded.blockedTime j delayedCall))
      ∧ (c.shared.st.sys.stats x.stats).peakDelay.toNat ≤ c.shared.st.mon.jiffies - 0 := by
  have h := (Option.some_get isSome_delayedCall).symm
  have hx := (Option.some_get isSome_lookup_delayedCall).symm
  refine ⟨_, _, h, hx, by decide, ?_⟩
  exact peakDelay_blockedTime SyscallTable.sample (fun _ => .zero) 0 h hx

end Delay

end Throttling

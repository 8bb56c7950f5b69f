import SyscallThrottling.Lemmas.Timer

/-!
This module contains the wake-ups of the wait queue: a thread that sleeps on it either waits for a
token of the next epoch, or is about to be woken.
-/

namespace Throttling

open Interleaving

variable {K : Platform}

namespace Thread

def sleeping : Thread K → Prop
  | .wrapper w => w.pc = .sleep
  | _ => False

def sawMonitorOn : Thread K → Prop
  | .wrapper w => w.pc = .testTokens ∨ w.pc = .sleep
  | _ => False

end Thread

/-- Nobody has woken the thread since it put itself on the queue. -/
def Asleep (c : Cfg K) (i : Nat) : Prop :=
  (c.locals i).sleeping ∧ i ∈ c.shared.st.mon.throttWq

/-- A call that switches the monitor off has cleared the flag and is about to wake the sleepers. -/
def OffPending (c : Cfg K) : Prop :=
  ∃ i, c.locals i = .switchOff .wake

structure WakeInv (c : Cfg K) : Prop where
  flag : c.shared.st.mon.isMonitorActive = 0 ∨ c.shared.st.mon.isMonitorActive = 1
  tested : ∀ i, (c.locals i).sawMonitorOn → i ∈ c.shared.st.mon.throttWq →
    c.shared.st.mon.isMonitorActive = 1 ∨ OffPending c
  asleep : ∀ i, (c.locals i).sleeping → i ∈ c.shared.st.mon.throttWq →
    c.shared.st.mon.currSyscalls ≤ 0 ∨ c.shared.handler = some .wake

theorem OffPending.update {c c' : Cfg K} {i : Nat} {t : Thread K} (h : OffPending c)
    (hlocals : c'.locals = Function.update c.locals i t) (hi : c.locals i ≠ .switchOff .wake)
    : OffPending c' :=
  exists_update (P := fun t : Thread K => t = .switchOff .wake) h hlocals fun hoff => absurd hoff hi

namespace Wrapper

variable {T : Type} {i : Nat} {ch : Choice T} {s s' : Shared K} {w w' : Wrapper K}
  {ev : List (Event K)}

theorem mem_throttWq (h : w.step i ch s = some (s', w', ev)) {j : Nat} (hj : j ≠ i)
    (hmem : j ∈ s'.st.mon.throttWq) : j ∈ s.st.mon.throttWq := by
  unfold step at h
  repeat' split at h
  all_goals
    first
    | contradiction
    | (cases h
       simpa [Shared.setMon, Shared.setSys, updateStats, enqueue, dequeue, addBlocked, hj]
         using hmem)

theorem pc_tail_ne : w.tail.pc ≠ .testTokens ∧ w.tail.pc ≠ .sleep := by
  rcases pc_tail (w := w) with h | h <;> rw [h] <;> exact ⟨nofun, nofun⟩

theorem pc_testTokens (h : w.step i ch s = some (s', w', ev)) (hpc : w'.pc = .testTokens)
    : s.st.mon.isMonitorActive ≠ 0 := by
  unfold step at h
  repeat' split at h
  all_goals
    first
    | contradiction
    | (cases h
       first
       | assumption
       | exact absurd hpc pc_tail_ne.1
       | cases hpc)

theorem pc_sleep (h : w.step i ch s = some (s', w', ev)) (hpc : w'.pc = .sleep)
    : w.pc = .testTokens ∧ s' = s ∧ s.st.mon.currSyscalls ≤ 0 := by
  unfold step at h
  repeat' split at h
  all_goals
    first
    | contradiction
    | (cases h
       first
       | exact absurd hpc pc_tail_ne.2
       | exact ⟨by assumption, rfl, by omega⟩
       | cases hpc)

end Wrapper

theorem HandlerPc.step_mon {s s' : Shared K} {pc : HandlerPc} {ev : List (Event K)}
    (hs : pc.step s = (s', ev))
    : s'.st.mon.isMonitorActive = s.st.mon.isMonitorActive
      ∧ ((pc = .wake ∧ s'.st.mon.throttWq = [])
        ∨ (pc ≠ .wake ∧ s'.st.mon.throttWq = s.st.mon.throttWq
          ∧ (s'.st.mon.currSyscalls = s.st.mon.currSyscalls ∨ s'.handler = some .wake))) := by
  cases pc with
  | check =>
    simp only [step] at hs
    split at hs <;> cases hs <;> exact ⟨rfl, .inr ⟨by simp, rfl, .inl rfl⟩⟩
  | readPeak max currBlocked =>
    simp only [step] at hs
    split at hs <;> cases hs <;> exact ⟨rfl, .inr ⟨by simp, rfl, .inl rfl⟩⟩
  | setPeak max currBlocked =>
    obtain ⟨info, hinfo⟩ := s.st.mon.setPeakBlocked_eq currBlocked
    rw [step, hinfo] at hs
    cases hs
    exact ⟨rfl, .inr ⟨by simp, rfl, .inl rfl⟩⟩
  | setCurr max =>
    cases hs
    exact ⟨rfl, .inr ⟨by simp, rfl, .inr rfl⟩⟩
  | wake =>
    cases hs
    exact ⟨rfl, .inl ⟨rfl, rfl⟩⟩
  | _ =>
    cases hs
    exact ⟨rfl, .inr ⟨by simp, rfl, .inl rfl⟩⟩

namespace WakeInv

variable {c c' : Cfg K}

theorem loaded (T : SyscallTable K) (stats : Ptr → SyscallStats) (now : Nat)
    : WakeInv (loaded K T stats now) where
  flag := .inr rfl
  tested _ h := h.elim
  asleep _ h := h.elim

theorem of_nil (hflag : c.shared.st.mon.isMonitorActive = 0 ∨ c.shared.st.mon.isMonitorActive = 1)
    (hwq : c.shared.st.mon.throttWq = []) : WakeInv c where
  flag := hflag
  tested i _ hmem := by simp [hwq] at hmem
  asleep i _ hmem := by simp [hwq] at hmem

theorem env_frame (h : WakeInv c) {s : Shared K} {ev : List (Event K)}
    (hflag : s.st.mon.isMonitorActive = c.shared.st.mon.isMonitorActive)
    (hwq : s.st.mon.throttWq = c.shared.st.mon.throttWq)
    (hcurr : c.shared.st.mon.currSyscalls ≤ 0 ∨ c.shared.handler = some .wake →
      s.st.mon.currSyscalls ≤ 0 ∨ s.handler = some .wake)
    : WakeInv { c with shared := s, trace := ev ++ c.trace } := by
  refine ⟨?_, ?_, ?_⟩
  . dsimp only
    rw [hflag]
    exact h.flag
  . dsimp only
    rw [hflag, hwq]
    exact h.tested
  . dsimp only
    rw [hwq]
    exact fun i hi hmem => hcurr (h.asleep i hi hmem)

theorem envStep (h : WakeInv c) {e : EnvStep} {s : Shared K} {ev : List (Event K)}
    (hs : c.shared.envStep e = some (s, ev))
    : WakeInv { c with shared := s, trace := ev ++ c.trace } := by
  rcases Shared.envStep_cases hs with ⟨d, rfl, rfl⟩ | ⟨_, _, hhandler, _, rfl, rfl⟩
    | ⟨pc, hpc, hs⟩ | ⟨newMax, rfl, rfl⟩ | ⟨_, _, _, _, rfl, rfl⟩
  . exact h.env_frame rfl rfl id
  . refine h.env_frame rfl rfl (Or.imp_right fun hw => ?_)
    rw [hhandler] at hw
    contradiction
  . obtain ⟨hflag, ⟨_, hnil⟩ | ⟨hne, hwq, hcurr⟩⟩ := HandlerPc.step_mon hs
    . exact of_nil (hflag ▸ h.flag) hnil
    . refine h.env_frame hflag hwq fun hor => ?_
      rw [hpc, Option.some.injEq, or_iff_left hne] at hor
      exact hcurr.imp (fun heq => heq.trans_le hor) id
  . unfold Monitor.setMaxSyscall
    split <;> exact h.env_frame rfl rfl id
  . exact h.env_frame rfl rfl id

section Thread

variable {i : Nat} {s : Shared K} {t : Thread K} {ev : List (Event K)}

theorem thread_frame (h : WakeInv c)
    (hflag : s.st.mon.isMonitorActive = 1
      ∨ s.st.mon.isMonitorActive = c.shared.st.mon.isMonitorActive)
    (hwq : ∀ j, j ≠ i → j ∈ s.st.mon.throttWq → j ∈ c.shared.st.mon.throttWq)
    (hcurr : c.shared.st.mon.currSyscalls ≤ 0 ∨ c.shared.handler = some .wake →
      s.st.mon.currSyscalls ≤ 0 ∨ s.handler = some .wake)
    (hpending : c.locals i ≠ .switchOff .wake)
    (htested : t.sawMonitorOn → i ∈ s.st.mon.throttWq → s.st.mon.isMonitorActive = 1 ∨ OffPending c)
    (hasleep : t.sleeping → i ∈ s.st.mon.throttWq →
      s.st.mon.currSyscalls ≤ 0 ∨ s.handler = some .wake)
    : WakeInv ⟨s, Function.update c.locals i t, ev ++ c.trace⟩ := by
  have hoff (ho : OffPending c) : OffPending ⟨s, Function.update c.locals i t, ev ++ c.trace⟩ :=
    ho.update rfl hpending
  refine ⟨?_, fun j hj hmem => ?_, fun j hj hmem => ?_⟩
  . exact hflag.elim .inr fun heq => heq ▸ h.flag
  . dsimp only at hj hmem
    by_cases hji : j = i
    . subst hji
      rw [Function.update_self] at hj
      exact (htested hj hmem).imp_right hoff
    . rw [Function.update_of_ne hji] at hj
      rcases hflag with h1 | heq
      . exact .inl h1
      . exact (h.tested j hj (hwq j hji hmem)).imp (fun h1 => heq.trans h1) hoff
  . dsimp only at hj hmem
    by_cases hji : j = i
    . subst hji
      rw [Function.update_self] at hj
      exact hasleep hj hmem
    . rw [Function.update_of_ne hji] at hj
      exact hcurr (h.asleep j hj (hwq j hji hmem))

theorem same_mon (h : WakeInv c) (hmon : s.st.mon = c.shared.st.mon)
    (hhandler : s.handler = c.shared.handler) (hpending : c.locals i ≠ .switchOff .wake)
    (ht : ¬t.sawMonitorOn ∧ ¬t.sleeping)
    : WakeInv ⟨s, Function.update c.locals i t, ev ++ c.trace⟩ := by
  refine h.thread_frame ?_ ?_ ?_ hpending (fun hi => absurd hi ht.1) (fun hi => absurd hi ht.2)
  . exact .inr (by rw [hmon])
  . intro j _ hmem
    rwa [hmon] at hmem
  . rw [hmon, hhandler]
    exact id

theorem wrapperStep (h : WakeInv c) {T : Type} {ch : Choice T} {w w' : Wrapper K}
    (hi : c.locals i = .wrapper w) (hs : w.step i ch c.shared = some (s, w', ev))
    : WakeInv ⟨s, Function.update c.locals i (.wrapper w'), ev ++ c.trace⟩ := by
  obtain ⟨hframe, hcharges, _⟩ := Wrapper.step_spec hs
  have hflag : s.st.mon.isMonitorActive = c.shared.st.mon.isMonitorActive := by rw [hframe.mon]
  have hon (h0 : c.shared.st.mon.isMonitorActive ≠ 0) : s.st.mon.isMonitorActive = 1 := by
    rw [hflag]
    exact h.flag.resolve_left h0
  refine h.thread_frame (.inr hflag) (fun j hji => Wrapper.mem_throttWq hs hji) ?_ (by simp [hi])
    ?_ ?_
  . -- a token is taken: what is left is less
    rw [hframe.handler]
    refine Or.imp_left fun hle => ?_
    rcases hcharges with ⟨heq, _⟩ | ⟨_, heq, _⟩ <;> omega
  . rintro (htest | hsleep) hmem
    . exact .inl (hon (Wrapper.pc_testTokens hs htest))
    . obtain ⟨hpc, rfl, _⟩ := Wrapper.pc_sleep hs hsleep
      exact h.tested i (by rw [hi]; exact .inl hpc) hmem
  . intro hsleep _
    obtain ⟨_, rfl, hle⟩ := Wrapper.pc_sleep hs hsleep
    exact .inl hle

theorem switchOnStep (h : WakeInv c) {pc pc' : SwitchOnPc} (hpc : c.locals i = .switchOn pc)
    (hs : pc.step c.shared = some (s, pc'))
    : WakeInv ⟨s, Function.update c.locals i (.switchOn pc'), ev ++ c.trace⟩ := by
  have hpending : c.locals i ≠ .switchOff .wake := by simp [hpc]
  cases pc with
  | cmpxchg =>
    simp only [SwitchOnPc.step] at hs
    split at hs
    . cases hs
      exact h.thread_frame (.inl rfl) (fun _ _ => id) id hpending (fun hi => hi.elim)
        (fun hi => hi.elim)
    . cases hs
      exact h.same_mon rfl rfl hpending ⟨id, id⟩
  | done ret => cases hs
  | _ =>
    cases hs
    exact h.thread_frame (.inr rfl) (fun _ _ => id) id hpending (fun hi => hi.elim)
      (fun hi => hi.elim)

theorem switchOffStep (h : WakeInv c) {pc pc' : SwitchOffPc} (hpc : c.locals i = .switchOff pc)
    (hs : pc.step c.shared = some (s, pc'))
    : WakeInv ⟨s, Function.update c.locals i (.switchOff pc'), ev ++ c.trace⟩ := by
  cases pc with
  | cmpxchg =>
    simp only [SwitchOffPc.step] at hs
    have hpending : c.locals i ≠ .switchOff .wake := by simp [hpc]
    split at hs
    . cases hs
      -- from here on this call owes the wake-up
      have hoff : OffPending ⟨c.shared.setMon { c.shared.st.mon with isMonitorActive := 0 },
          Function.update c.locals i (.switchOff .wake), ev ++ c.trace⟩ :=
        ⟨i, Function.update_self ..⟩
      refine ⟨.inl rfl, fun _ _ _ => .inr hoff, fun j hj hmem => ?_⟩
      dsimp only at hj
      by_cases hji : j = i
      . subst hji
        rw [Function.update_self] at hj
        exact hj.elim
      . rw [Function.update_of_ne hji] at hj
        exact h.asleep j hj hmem
    . cases hs
      exact h.same_mon rfl rfl hpending ⟨id, id⟩
  | wake =>
    cases hs
    exact of_nil h.flag rfl
  | timerDelete =>
    simp only [SwitchOffPc.step] at hs
    split at hs
    . cases hs
      exact h.thread_frame (.inr rfl) (fun _ _ => id) id (by simp [hpc]) (fun hi => hi.elim)
        (fun hi => hi.elim)
    . contradiction
  | done ret => cases hs
  | _ =>
    cases hs
    exact h.thread_frame (.inr rfl) (fun _ _ => id) id (by simp [hpc]) (fun hi => hi.elim)
      (fun hi => hi.elim)

theorem step (h : WakeInv c) {l : Lbl K} (hs : (throttling K).step c l = some c') : WakeInv c' := by
  cases l with
  | env e =>
    obtain ⟨s, ev, heq, rfl⟩ := System.step_env hs
    exact h.envStep heq
  | run i ch =>
    obtain ⟨s, t, ev, heq, rfl⟩ := System.step_run hs
    rcases Thread.step_cases heq with ⟨hi, rfl, rfl, task, _, rfl⟩ | ⟨w, w', hi, rfl, h'⟩
      | ⟨pc, pc', hi, rfl, h', rfl⟩ | ⟨pc, pc', hi, rfl, h', rfl⟩ | ⟨f, f', hi, rfl, h', rfl⟩
      | ⟨f, f', hi, rfl, h', rfl⟩
    . refine h.same_mon rfl rfl (by simp [hi]) ?_
      cases task <;> simp [Task.thread, Thread.sawMonitorOn, Thread.sleeping, Wrapper.initial]
    . exact h.wrapperStep hi h'
    . exact h.switchOnStep hi h'
    . exact h.switchOffStep hi h'
    . have hframe := (Register.step_frame h').1
      exact h.same_mon hframe.mon hframe.handler (by simp [hi]) ⟨id, id⟩
    . have hframe := (Deregister.step_frame h').1
      exact h.same_mon hframe.mon hframe.handler (by simp [hi]) ⟨id, id⟩

theorem of_reachable {T : SyscallTable K} (h : Reachable K T c) : WakeInv c := by
  obtain ⟨stats, now, h⟩ := h
  exact h.invariant (loaded T stats now) fun _ _ _ hc _ hs => hc.step hs

theorem on_or_offPending (h : WakeInv c) {i : Nat} (hi : Asleep c i)
    : c.shared.st.mon.isMonitorActive = 1 ∨ OffPending c := by
  apply h.tested i _ hi.2
  have hsleep := hi.1
  generalize c.locals i = t at hsleep ⊢
  cases t with
  | wrapper w => exact .inr hsleep
  | _ => exact hsleep

end Thread

end WakeInv

/--
Whoever sleeps while no wake-up is due sleeps for lack of tokens, with the monitor on.
-/
theorem no_lost_wakeup {T : SyscallTable K} {c : Cfg K} (h : Reachable K T c) {i : Nat}
    (hi : Asleep c i)
    : (c.shared.st.mon.isMonitorActive = 1 ∧ c.shared.st.mon.currSyscalls = 0)
      ∨ c.shared.handler = some .wake ∨ OffPending c := by
  have hinv := WakeInv.of_reachable h
  have hpos := (Accounts.of_reachable h).nonneg
  rcases hinv.on_or_offPending hi with h1 | hoff
  . rcases hinv.asleep i hi.1 hi.2 with hle | hwake
    . exact .inl ⟨h1, by omega⟩
    . exact .inr (.inl hwake)
  . exact .inr (.inr hoff)

/-- Three callers take the tokens of the first epoch, and the fourth goes to sleep. -/
def fourCalls : List (Lbl Platform.sample) :=
  sampleSetup ++ (sampleCall 1 :: steps 1 5) ++ (sampleCall 2 :: steps 2 5)
    ++ (sampleCall 3 :: steps 3 5) ++ (sampleCall 4 :: steps 4 11)

theorem isSome_fourCalls : (sampleRun (fun _ _ => true) fourCalls).isSome := by
  decide

theorem no_lost_wakeup_fourCalls
    : ∃ c, Reachable Platform.sample SyscallTable.sample c ∧ Asleep c 4
      ∧ ((c.shared.st.mon.isMonitorActive = 1 ∧ c.shared.st.mon.currSyscalls = 0)
        ∨ c.shared.handler = some .wake ∨ OffPending c) := by
  have hr := reachable_sampleRun isSome_fourCalls
  have hi : Asleep ((sampleRun (fun _ _ => true) fourCalls).get isSome_fourCalls) 4 :=
    ⟨rfl, by decide⟩
  exact ⟨_, hr, hi, no_lost_wakeup hr hi⟩

end Throttling

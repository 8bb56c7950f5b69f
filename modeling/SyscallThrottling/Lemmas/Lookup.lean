import SyscallThrottling.Lemmas.Published
import SyscallThrottling.Lemmas.Transparent

/-!
This module contains what callers of a system call observe while it is registered and deregistered:
a call is lost if its lookup falls into one of the two windows, and only then.
-/

namespace Throttling

open Interleaving SyscallRegistry

variable {K : Platform}

/-- A step that looks up the handler of `n` is outside the two windows. -/
def LooksUpOutside (n : Fin K.nrSyscalls) (c : Cfg K) : Lbl K → Prop
  | .env _ => True
  | .run i _ => ∀ w, c.locals i = .wrapper w → w.pc = .lookup → w.regs.origAx = n →
    ¬Registering n c ∧ ¬Deregistered n c

def Thread.Bound (T : SyscallTable K) (n : Fin K.nrSyscalls) (i : Nat) (L : List (Event K))
    : Thread K → Prop
  | .wrapper w => w.regs.origAx = n → w.Bound i (T.entry w.regs.origAx) L
  | _ => True

def WrapperPc.resolved : WrapperPc → Bool
  | .dispatch => false
  | .direct _ => false
  | .entry => false
  | .checkUid => false
  | .checkProg => false
  | .lookup => false
  | _ => true

theorem Wrapper.resolved_tail {w : Wrapper K} : w.tail.pc.resolved = true := by
  rcases w.pc_tail with h | h <;> rw [h] <;> rfl

theorem Wrapper.step_resolved {U : Type} {i : Nat} {ch : Choice U} {s s' : Shared K}
    {w w' : Wrapper K} {ev : List (Event K)} (hres : w.pc.resolved = true)
    (h : w.step i ch s = some (s', w', ev)) : w'.pc.resolved = true ∧ w'.toCall = w.toCall := by
  unfold step at h
  repeat' split at h
  all_goals
    first
    | contradiction
    | (rw [‹w.pc = _›] at hres
       exact absurd hres Bool.false_ne_true)
    | (cases h
       first
       | exact ⟨rfl, rfl⟩
       | exact ⟨resolved_tail, toCall_tail⟩)

section Run

variable {T : SyscallTable K} {n : Fin K.nrSyscalls} {c c' : Cfg K} {i : Nat} {w : Wrapper K}

theorem thread_bound_step {ch : Choice (Task K)} {s : Shared K} {t : Thread K}
    {ev : List (Event K)} (hreach : Reachable K T c) (hon : MonitorOn c)
    (houtside : LooksUpOutside n c (.run i ch)) (hB : (c.locals i).Bound T n i (c.own i))
    (hs : (c.locals i).step i ch c.shared = some (s, t, ev)) : t.Bound T n i (ev ++ c.own i) := by
  rcases Thread.step_cases hs with ⟨_, _, _, task, _, rfl⟩ | ⟨w, w', hw, rfl, h⟩
    | ⟨_, _, _, rfl, _, _⟩ | ⟨_, _, _, rfl, _, _⟩ | ⟨_, _, _, rfl, _, _⟩ | ⟨_, _, _, rfl, _, _⟩
  . cases task <;> simp [Task.thread, Thread.Bound, Wrapper.Bound, Wrapper.initial]
  . intro hn
    rw [(Wrapper.step_spec h).2.2] at hn
    rw [hw] at hB
    -- the guard of the run rules out both places where the handler is missed
    refine Wrapper.bound_step (sound_of_reachable hreach) (fun _ => hon) ?_
      (logged_wrapper hreach hw) (hB hn) h
    intro hpc
    rw [hn]
    exact (isSome_lookup_iff hreach n).mpr (houtside w hw hpc hn)
  all_goals trivial

theorem transparent_of_outside {stats : Ptr → SyscallStats} {now : Nat}
    (hrun : (throttling K).Run (fun c l => MonitorOn c ∧ LooksUpOutside n c l)
      (loaded K T stats now) c)
    (hw : c.locals i = .wrapper w) (hn : w.regs.origAx = n) {ret : Int} (hdone : w.pc = .done ret)
    : Transparent i (T.entry n) w.regs ret (c.own i) := by
  have hrun := hrun.with_invariant (I := Reachable K T) ⟨stats, now, .refl⟩
    fun _ _ _ h _ hs => h.step hs
  have hB := System.Run.local_invariant (i := i) (P := fun t L => t.Bound T n i L) attributed hrun
    trivial fun c ch s t ev hB hG hs => thread_bound_step hG.2 hG.1.1 hG.1.2 hB hs
  rw [hw] at hB
  have hB : w.Bound i (T.entry w.regs.origAx) (c.own i) := hB hn
  rw [hn] at hB
  exact hB.done hdone

structure Provided (n : Fin K.nrSyscalls) (i : Nat) (c : Cfg K) : Prop where
  on : MonitorOn c
  caller : ∃ w, c.locals i = .wrapper w ∧ w.regs.origAx = n
    ∧ (w.pc.resolved = true ∨ (c.shared.st.sys.lookup n).isSome)

theorem Provided.step (h : Provided n i c) {l : Lbl K} (hl : Timed i l)
    (hs : (throttling K).step c l = some c') : Provided n i c' := by
  obtain ⟨hon, w, hw, hn, hprovided⟩ := h
  have hsame := (sameHooks_of_ending ⟨w, hw⟩ (.inl hl) hs).1
  have hlookup : c'.shared.st.sys.lookup n = c.shared.st.sys.lookup n := by
    rw [hsame.sys]
    rfl
  constructor
  . unfold MonitorOn
    rw [flag_of_timed ⟨w, hw⟩ hl hs]
    exact hon
  . rw [hlookup]
    cases l with
    | env e =>
      obtain ⟨s, ev, _, rfl⟩ := System.step_env hs
      exact ⟨w, hw, hn, hprovided⟩
    | run j ch =>
      obtain ⟨rfl, _⟩ := hl
      obtain ⟨s, t, ev, heq, rfl⟩ := System.step_run hs
      have heq : (c.locals j).step j ch c.shared = some (s, t, ev) := heq
      rw [hw] at heq
      obtain ⟨w', rfl, h⟩ := Thread.step_wrapper heq
      refine ⟨w', Function.update_self .., (Wrapper.step_spec h).2.2 ▸ hn, ?_⟩
      exact hprovided.imp_left fun hres => (Wrapper.step_resolved hres h).1

theorem Provided.looksUpOutside (h : Provided n i c) (hreach : Reachable K T c) {l : Lbl K}
    (hl : Timed i l) : LooksUpOutside n c l := by
  cases l with
  | env e => trivial
  | run j ch =>
    obtain ⟨rfl, _⟩ := hl
    obtain ⟨_, w, hw, _, hprovided⟩ := h
    intro w' hw' hpc _
    obtain rfl : w = w' := by simpa [hw] using hw'
    apply (isSome_lookup_iff hreach n).mp
    apply hprovided.resolve_left
    simp [hpc, WrapperPc.resolved]

theorem exists_timed_outside (hreach : Reachable K T c) (h : Provided n i c)
    (htimer : c.shared.st.mon.epochTimer.isSome ∨ c.shared.handler.isSome)
    : ∃ c' : Cfg K,
      (throttling K).Run (fun c l => (MonitorOn c ∧ LooksUpOutside n c l) ∧ Timed i l) c c'
        ∧ c'.Over i := by
  obtain ⟨w, hw, _⟩ := h.caller
  obtain ⟨c', hrun, hover⟩ := exists_timed hreach ⟨w, hw⟩ h.on htimer
  have hrun := hrun.with_invariant (I := fun c => Reachable K T c ∧ Provided n i c) ⟨hreach, h⟩
    fun _ _ _ hI hl hs => ⟨hI.1.step hs, hI.2.step hl hs⟩
  refine ⟨c', hrun.mono ?_, hover⟩
  rintro c l ⟨hl, hreach, h⟩
  exact ⟨⟨h.on, h.looksUpOutside hreach hl⟩, hl⟩

def Cfg.Unresolved (c : Cfg K) (i : Nat) : Prop :=
  ∃ w, c.locals i = .wrapper w ∧ w.pc.resolved = false

theorem Updates.looksUpOutside {l : Lbl K} (h : Updates n c l) : LooksUpOutside n c l := by
  obtain ⟨j, ch, rfl, hj⟩ := h
  intro w hw
  simp [hw] at hj

/-- The steps that bring a call to its end while the table is being updated. -/
def Completes (n : Fin K.nrSyscalls) (i : Nat) (c : Cfg K) (l : Lbl K) : Prop :=
  Timed i l ∨ (c.Unresolved i ∧ Updates n c l)

theorem exists_completed (hreach : Reachable K T c) (hw : c.locals i = .wrapper w)
    (hn : w.regs.origAx = n) (hon : MonitorOn c)
    (htimer : c.shared.st.mon.epochTimer.isSome ∨ c.shared.handler.isSome)
    : ∃ c' : Cfg K,
      (throttling K).Run (fun c l => (MonitorOn c ∧ LooksUpOutside n c l) ∧ Completes n i c l) c c'
        ∧ c'.Over i := by
  cases hres : w.pc.resolved with
  | true =>
    obtain ⟨c', hrun, hover⟩ :=
      exists_timed_outside hreach ⟨hon, w, hw, hn, .inl hres⟩ htimer
    exact ⟨c', hrun.mono fun _ _ hl => ⟨hl.1, .inl hl.2⟩, hover⟩
  | false =>
    -- the updates go on until the node is there, and the caller waits for them before its lookup
    obtain ⟨c₁, hrun₁, hfound⟩ := exists_found hreach n
    have haside := aside_of_updates hrun₁ ⟨w, hw⟩
    have hrun₁ := hrun₁.with_invariant (I := Aside i c) (.refl i c)
      fun _ _ _ h hl hs => h.trans (hl.aside ⟨w, h.caller.trans hw⟩ hs)
    have hon₁ : MonitorOn c₁ := by
      unfold MonitorOn
      rw [haside.mon]
      exact hon
    rw [← haside.mon, ← haside.handler] at htimer
    obtain ⟨c₂, hrun₂, hover⟩ := exists_timed_outside (reachable_trans hreach hrun₁.reaches)
      ⟨hon₁, w, haside.caller.trans hw, hn, .inr hfound⟩ htimer
    refine ⟨c₂, .trans (hrun₁.mono ?_) (hrun₂.mono fun _ _ hl => ⟨hl.1, .inl hl.2⟩), hover⟩
    rintro c' l ⟨hl, haside⟩
    refine ⟨⟨?_, hl.looksUpOutside⟩, .inr ⟨⟨w, haside.caller.trans hw, hres⟩, hl⟩⟩
    unfold MonitorOn
    rw [haside.mon]
    exact hon

/--
While the system call `n` is registered and deregistered any number of times, a call of it that has
returned has executed the handler of `n` once, and any other call of it can come to such an end, as
long as no lookup of the handler falls into one of the two windows.
-/
theorem no_call_lost (T : SyscallTable K) (stats : Ptr → SyscallStats) (now : Nat)
    (n : Fin K.nrSyscalls)
    (hrun : (throttling K).Run (fun c l => MonitorOn c ∧ LooksUpOutside n c l)
      (loaded K T stats now) c)
    (hw : c.locals i = .wrapper w) (hn : w.regs.origAx = n)
    : (∀ ret, w.pc = .done ret → Transparent i (T.entry n) w.regs ret (c.own i))
      ∧ (MonitorOn c → ∃ c' : Cfg K,
        (throttling K).Run
            (fun c l => (MonitorOn c ∧ LooksUpOutside n c l) ∧ Completes n i c l) c c'
          ∧ c'.Returned i (Transparent i (T.entry n) w.regs)) := by
  refine ⟨fun ret hdone => transparent_of_outside hrun hw hn hdone, ?_⟩
  intro hon
  have htimer := timer_of_on (hrun.mono fun _ _ hl => hl.1) hon
  obtain ⟨c', hrun', w', ret, hw', hdone⟩ :=
    exists_completed ⟨stats, now, hrun.reaches⟩ hw hn hon htimer
  refine ⟨c', hrun', w', ret, hw', hdone, ?_⟩
  obtain ⟨w'', hw'', hregs⟩ := wrapper_of_run hrun' hw
  obtain rfl : w'' = w' := by simpa [hw''] using hw'
  rw [← hregs]
  exact transparent_of_outside (hrun.trans (hrun'.mono fun _ _ hl => hl.1)) hw' (hregs ▸ hn) hdone

def onAndFound (c : Cfg K) : Lbl K → Bool
  | .env _ => MonitorOn c
  | .run i _ =>
    match c.locals i with
    | .wrapper w =>
      MonitorOn c ∧ (w.pc = .lookup → (c.shared.st.sys.lookup w.regs.origAx).isSome)
    | _ => MonitorOn c

theorem of_onAndFound (hreach : Reachable K T c) {l : Lbl K} (h : onAndFound c l = true)
    : MonitorOn c ∧ LooksUpOutside n c l := by
  cases l with
  | env e => exact ⟨of_decide_eq_true h, trivial⟩
  | run i ch =>
    unfold onAndFound at h
    dsimp only at h
    split at h
    . next w hw =>
      obtain ⟨hon, hfound⟩ := of_decide_eq_true h
      refine ⟨hon, ?_⟩
      intro w' hw' hpc hn
      obtain rfl : w = w' := by simpa [hw] using hw'
      rw [← hn]
      exact (isSome_lookup_iff hreach w.regs.origAx).mp (hfound hpc)
    . next hno => exact ⟨of_decide_eq_true h, fun w hw => absurd hw (hno w)⟩

theorem run_of_onAndFound {stats : Ptr → SyscallStats} {now : Nat}
    (hrun : (throttling K).Run (fun c l => onAndFound c l = true) (loaded K T stats now) c)
    : (throttling K).Run (fun c l => MonitorOn c ∧ LooksUpOutside n c l) (loaded K T stats now) c := by
  have hrun := hrun.with_invariant (I := Reachable K T) ⟨stats, now, .refl⟩
    fun _ _ _ h _ hs => h.step hs
  exact hrun.mono fun _ _ hl => of_onAndFound hl.2 hl.1

end Run

/-- Caller 4 is asleep when thread 5 deregisters the system call. -/
def deregisterBehindCall : List (Lbl Platform.sample) :=
  fourCalls ++ .run 5 (.start (.deregister 83)) :: steps 5 8

theorem isSome_deregisterBehindCall : (sampleRun onAndFound deregisterBehindCall).isSome := by
  decide

theorem no_call_lost_behind_deregister
    : ∃ c c' : Cfg Platform.sample, Asleep c 4 ∧ (c.shared.st.sys.lookup sampleRegs.origAx).isNone
        ∧ (throttling Platform.sample).Run
          (fun c l => (MonitorOn c ∧ LooksUpOutside sampleRegs.origAx c l)
            ∧ Completes sampleRegs.origAx 4 c l) c c'
        ∧ c'.Returned 4
          (Transparent 4 (SyscallTable.sample.entry sampleRegs.origAx) sampleRegs) := by
  have hrun := run_of_onAndFound (T := SyscallTable.sample) (n := sampleRegs.origAx)
    (System.run_exec_get isSome_deregisterBehindCall)
  obtain ⟨c', h⟩ := (no_call_lost SyscallTable.sample (fun _ => .zero) 0 sampleRegs.origAx hrun
    (i := 4) rfl rfl).2 (by decide)
  have hasleep : Asleep ((sampleRun onAndFound deregisterBehindCall).get
      isSome_deregisterBehindCall) 4 := ⟨rfl, by decide⟩
  exact ⟨_, c', hasleep, by decide, h⟩

/-- Caller 1 runs between the write to the table and the insertion of the node. -/
def callBeforeNode : List (Lbl Platform.sample) :=
  .run 0 (.start (.register Env.sample 83)) :: steps 0 5 ++ sampleCall 1 :: steps 1 6

theorem isSome_callBeforeNode
    : (sampleRun (fun c _ => decide (MonitorOn c)) callBeforeNode).isSome := by
  decide

theorem call_lost_in_registration
    : ∃ (c : Cfg Platform.sample) (w : Wrapper Platform.sample),
      (throttling Platform.sample).Run (fun c _ => MonitorOn c) sampleLoaded c
        ∧ c.locals 1 = .wrapper w ∧ w.regs = sampleRegs ∧ w.pc = .done (-ENOSYS)
        ∧ .interrupted 1 ∉ c.trace ∧ executions (c.own 1) = [] := by
  refine ⟨_, _, (System.run_exec_get isSome_callBeforeNode).mono fun _ _ => of_decide_eq_true, rfl,
    rfl, rfl, ?_, ?_⟩
  . decide
  . decide

section Missed

variable {T : SyscallTable K} {c c₁ c' : Cfg K} {i : Nat} {w w' : Wrapper K}

theorem Wrapper.Logged.lookup {L : List (Event K)} (h : w.Logged i L) (hpc : w.pc = .lookup)
    : L = [.checked i w.needMon, .sawMonitor i true] := by
  unfold Logged at h
  rw [hpc] at h
  exact h

theorem Wrapper.Finished.of_toCall_none {L : List (Event K)} {ret : Int} (h : Finished i w ret L)
    (hnone : w.toCall = none) (hon : .sawMonitor i true ∈ L) : executions L = [] := by
  cases h with
  | direct h => simp at hon
  | called h hcall _ => simp [hnone] at hcall
  | notFound _ hp _ =>
    rw [← hp.executions_eq.1]
    rfl
  | interrupted _ => rfl

/-- A call whose lookup falls into a window never executes its handler. -/
theorem executions_of_inside (hreach : Reachable K T c) (hw : c.locals i = .wrapper w)
    (hpc : w.pc = .lookup) (hinside : Registering w.regs.origAx c ∨ Deregistered w.regs.origAx c)
    (hfirst : (throttling K).step c (.run i .go) = some c₁)
    (hrun : (throttling K).Reaches c₁ c') {ret : Int} (hw' : c'.locals i = .wrapper w')
    (hdone : w'.pc = .done ret) : executions (c'.own i) = [] := by
  have hreach' := reachable_trans (hreach.step hfirst) hrun
  have hrun₁ : (throttling K).Reaches c c' := .head _ trivial hfirst hrun
  obtain ⟨seg, hseg⟩ := hrun₁.trace_append
  have hon : .sawMonitor i true ∈ c.own i := by
    rw [(logged_wrapper hreach hw).lookup hpc]
    simp
  have hon' : .sawMonitor i true ∈ c'.own i := by
    rw [Cfg.mem_own] at hon ⊢
    rw [hseg]
    exact ⟨List.mem_append_right _ hon.1, rfl⟩
  have hnone : c.shared.st.sys.lookup w.regs.origAx = none := by
    rw [← Option.not_isSome_iff_eq_none, isSome_lookup_iff hreach]
    tauto
  have hfirst' : ∃ w₁, c₁.locals i = .wrapper w₁ ∧ w₁.pc.resolved = true ∧ w₁.toCall = none := by
    simp only [System.step, throttling, Thread.step, Wrapper.step, hw, hpc, hnone] at hfirst
    by_cases hneed : w.needMon = false
    . rw [if_pos hneed] at hfirst
      cases hfirst
      exact ⟨_, Function.update_self .., Wrapper.resolved_tail, Wrapper.toCall_tail⟩
    . rw [if_neg hneed] at hfirst
      cases hfirst
      exact ⟨_, Function.update_self .., rfl, rfl⟩
  -- nothing is looked up again after the step
  obtain ⟨w'', hw'', _, hcall⟩ : ∃ w', c'.locals i = .wrapper w' ∧ w'.pc.resolved = true
      ∧ w'.toCall = none := by
    refine System.Run.local_invariant (P := fun t _ => ∃ w', t = .wrapper w'
      ∧ w'.pc.resolved = true ∧ w'.toCall = none) attributed hrun hfirst' ?_
    intro c ch s t ev hP _ hs
    obtain ⟨w', hw', hres, hcall⟩ := hP
    rw [hw'] at hs
    obtain ⟨w'', rfl, h⟩ := Thread.step_wrapper hs
    obtain ⟨hres', hcall'⟩ := Wrapper.step_resolved hres h
    exact ⟨w'', rfl, hres', hcall'.trans hcall⟩
  obtain rfl : w'' = w' := by simpa [hw''] using hw'
  exact ((logged_wrapper hreach' hw').done hdone).of_toCall_none hcall hon'

end Missed

end Throttling

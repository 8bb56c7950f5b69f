import SyscallThrottling.Lemmas.Release

/-!
This module contains what a caller of a registered system call observes of the wrapper: the original
handler runs once and its value is returned, provided that the caller gets to look up the handler.
-/

namespace Throttling

open Interleaving SyscallRegistry

variable {K : Platform}

def executions (L : List (Event K)) : List (Handler × PtRegs K × Int) :=
  L.filterMap fun
    | .executed _ h regs ret => some (h, regs, ret)
    | _ => none

def returns (L : List (Event K)) : List Int :=
  L.filterMap fun
    | .returned _ ret => some ret
    | _ => none

/--
The call that returns `ret` has executed `h` once and `ret` is its value, or a signal has
interrupted the wait.
-/
def Transparent (i : Nat) (h : Handler) (regs : PtRegs K) (ret : Int) (L : List (Event K)) : Prop :=
  returns L = [ret] ∧ (executions L = [(h, regs, ret)]
    ∨ (.interrupted i ∈ L ∧ executions L = [] ∧ ret = -EINTR))

namespace Wrapper

variable {T : Type} {i : Nat} {ch : Choice T} {s s' : Shared K} {w w' : Wrapper K}
  {L ev : List (Event K)}

theorem Passed.executions_eq (h : Passed i w L) : executions L = [] ∧ returns L = [] := by
  cases h <;> exact ⟨rfl, rfl⟩

theorem transparent_of_passed (hd : Handler) (ret : Int) (h : Passed i w L)
    : Transparent i hd w.regs ret (.returned i ret :: .executed i hd w.regs ret :: L) := by
  obtain ⟨hex, hret⟩ := h.executions_eq
  refine ⟨?_, .inl ?_⟩
  . rw [← hret]
    rfl
  . rw [← hex]
    rfl

theorem Logged.entry (h : Logged i w L) (hpc : w.pc = .entry) : L = [] := by
  unfold Logged at h
  rw [hpc] at h
  exact h.1

theorem Logged.done {ret : Int} (h : Logged i w L) (hpc : w.pc = .done ret)
    : Finished i w ret L := by
  unfold Logged at h
  rw [hpc] at h
  exact h

theorem Finished.of_sawMonitor_false {ret : Int} (h : Finished i w ret L)
    (hoff : .sawMonitor i false ∈ L) : L = [.returned i ret, .sawMonitor i false] := by
  -- the only way out for a caller that has found the monitor off and has nothing to call
  cases h with
  | direct h => simp at hoff
  | called h hcall hp =>
    cases hp with
    | off hnone => simp [hnone] at hcall
    | _ => simp at hoff
  | notFound _ hp _ =>
    cases hp with
    | off _ => rfl
    | _ => simp at hoff
  | interrupted _ => simp at hoff

def Bound (i : Nat) (hd : Handler) (w : Wrapper K) (L : List (Event K)) : Prop :=
  match w.pc with
  | .dispatch => True
  | .direct h => h = hd
  | .entry => True
  | .checkUid => True
  | .checkProg => True
  | .lookup => True
  | .done ret => Transparent i hd w.regs ret L
  | _ => w.toCall = some hd

theorem Bound.done {hd : Handler} {ret : Int} (h : Bound i hd w L) (hpc : w.pc = .done ret)
    : Transparent i hd w.regs ret L := by
  unfold Bound at h
  rw [hpc] at h
  exact h

theorem bound_tail {hd : Handler} (h : w.toCall = some hd) : Bound i hd w.tail L := by
  unfold tail
  split <;> exact h

theorem bound_step {tbl : SyscallTable K} (hr : Sound tbl s.st.sys)
    (hmon : w.pc = .entry → s.st.mon.isMonitorActive ≠ 0)
    (hnode : w.pc = .lookup → (s.st.sys.lookup w.regs.origAx).isSome) (hL : Logged i w L)
    (hB : Bound i (tbl.entry w.regs.origAx) w L) (h : w.step i ch s = some (s', w', ev))
    : Bound i (tbl.entry w'.regs.origAx) w' (ev ++ L) := by
  rw [(step_spec h).2.2]
  unfold Logged at hL
  unfold Bound at hB
  unfold step at h
  split at h
  . -- dispatch
    split at h
    . cases h
      trivial
    . next addr htbl =>
      cases h
      rcases hr.entries w.regs.origAx with hw | horig
      . simp [htbl] at hw
      . exact htbl.symm.trans horig
  . -- direct
    next hd ret hpc =>
    rw [hpc] at hL hB
    cases h
    dsimp only at hL hB
    subst hL
    rw [← hB]
    exact ⟨rfl, .inl rfl⟩
  . -- entry
    next hpc =>
    -- with the monitor off, the caller would go on without having looked up a handler
    rw [if_neg (hmon hpc)] at h
    cases h
    trivial
  . -- checkUid
    split at h <;> cases h <;> trivial
  . -- checkProg
    cases h
    trivial
  . -- lookup
    next hpc =>
    -- the node keeps what the table held before it was hooked
    obtain ⟨node, hl⟩ := Option.isSome_iff_exists.mp (hnode hpc)
    have horig := hr.toLinked.lookup_original hl
    have hcall : (s.st.sys.lookup w.regs.origAx).map HackedSyscall.originalSyscall
        = some (tbl.entry w.regs.origAx) := by
      rw [hl, Option.map_some, horig]
    dsimp only at h
    split at h
    . cases h
      exact bound_tail hcall
    . cases h
      exact hcall
  . -- takeToken
    next hpc =>
    rw [hpc] at hB
    split at h
    . cases h
      exact bound_tail hB
    . cases h
      exact hB
  . -- recheck
    next hpc =>
    rw [hpc] at hB
    split at h
    . cases h
      exact bound_tail hB
    . cases h
      exact hB
  . -- incBlocked
    next hpc =>
    rw [hpc] at hB
    cases h
    exact hB
  . -- startWait
    next hpc =>
    rw [hpc] at hB
    cases h
    exact hB
  . -- enqueue
    next hpc =>
    rw [hpc] at hB
    cases h
    exact hB
  . -- testMonitor
    next hpc =>
    rw [hpc] at hB
    split at h <;> cases h <;> exact hB
  . -- testTokens
    next hpc =>
    rw [hpc] at hB
    split at h <;> cases h <;> exact hB
  . -- sleep
    next hpc =>
    rw [hpc] at hB
    split at h
    . contradiction
    . cases h
      exact hB
  . -- sleep, signal
    next hpc =>
    rw [hpc] at hB
    cases h
    exact hB
  . -- decBlocked
    next hpc =>
    rw [hpc] at hL hB
    dsimp only at hL
    subst hL
    split at h
    . cases h
      refine ⟨rfl, .inr ⟨?_, rfl, rfl⟩⟩
      simp
    . cases h
      exact hB
  . -- addDelay
    next hpc =>
    rw [hpc] at hB
    cases h
    exact hB
  . -- statLookup
    next hpc =>
    rw [hpc] at hB
    split at h <;> cases h <;> exact hB
  . -- statCompare
    next hpc =>
    rw [hpc] at hB
    split at h <;> cases h <;> exact hB
  . -- statUpdate
    next hpc =>
    rw [hpc] at hB
    cases h
    exact hB
  . -- callOriginal
    next hpc =>
    rw [hpc] at hL hB
    dsimp only at hB
    rw [hB] at h
    split at h
    . next hd ret heq =>
      cases heq
      cases h
      exact transparent_of_passed _ ret hL
    . next heq => cases heq
    . contradiction
  . contradiction

end Wrapper

section Call

variable {T : SyscallTable K} {c c₁ c' : Cfg K} {i : Nat} {w : Wrapper K}

theorem step_entry (hw : c.locals i = .wrapper w) (hentry : w.pc = .entry)
    (hfirst : (throttling K).step c (.run i .go) = some c₁)
    : (c.shared.st.mon.isMonitorActive = 0 ∧ c₁.locals i = .wrapper w.tail
        ∧ .sawMonitor i false ∈ c₁.trace)
      ∨ (c.shared.st.mon.isMonitorActive ≠ 0 ∧ c₁.locals i = .wrapper (w.goto .checkUid)
        ∧ .sawMonitor i true ∈ c₁.trace) := by
  simp only [System.step, throttling, Thread.step, Wrapper.step, hw, hentry] at hfirst
  by_cases hoff : c.shared.st.mon.isMonitorActive = 0
  . rw [if_pos hoff] at hfirst
    cases hfirst
    exact .inl ⟨hoff, Function.update_self .., List.mem_cons_self⟩
  . rw [if_neg hoff] at hfirst
    cases hfirst
    exact .inr ⟨hoff, Function.update_self .., List.mem_cons_self⟩

theorem not_transparent_of_sawMonitor_false {ret : Int} (hd : Handler) (regs : PtRegs K)
    (h : Reachable K T c) (hw : c.locals i = .wrapper w) (hdone : w.pc = .done ret)
    (hoff : .sawMonitor i false ∈ c.trace) : ¬Transparent i hd regs ret (c.own i) := by
  have hfin := (logged_wrapper h hw).done hdone
  rw [hfin.of_sawMonitor_false (Cfg.mem_own.mpr ⟨hoff, rfl⟩)]
  rintro ⟨_, hex | ⟨hint, _⟩⟩
  . simp [executions] at hex
  . simp at hint

def Hooked (n : Fin K.nrSyscalls) (c : Cfg K) : Prop :=
  c.shared.st.sys.syscallArray n = 1 ∧ (c.shared.st.sys.lookup n).isSome

instance (n : Fin K.nrSyscalls) (c : Cfg K) : Decidable (Hooked n c) :=
  inferInstanceAs (Decidable (_ ∧ _))

theorem bound_of_sawMonitor_true (hreach : Reachable K T c) (hw : c.locals i = .wrapper w)
    (hon : .sawMonitor i true ∈ c.trace) (hB : w.Bound i (T.entry w.regs.origAx) (c.own i))
    (hrun : (throttling K).Run (fun c _ => Hooked w.regs.origAx c) c c')
    : ∃ w', c'.locals i = .wrapper w' ∧ w'.regs = w.regs ∧ .sawMonitor i true ∈ c'.own i
      ∧ w'.Bound i (T.entry w'.regs.origAx) (c'.own i) := by
  have hrun := hrun.with_invariant (I := Reachable K T) hreach fun _ _ _ h _ hs => h.step hs
  refine System.Run.local_invariant (P := fun t L => ∃ w', t = .wrapper w' ∧ w'.regs = w.regs
    ∧ .sawMonitor i true ∈ L ∧ w'.Bound i (T.entry w'.regs.origAx) L) attributed hrun
    ⟨w, hw, rfl, Cfg.mem_own.mpr ⟨hon, rfl⟩, hB⟩ ?_
  intro c ch s t ev hP hG hs
  obtain ⟨w', hw', hregs, hon, hB⟩ := hP
  obtain ⟨hhooked, hreach⟩ := hG
  have hL := logged_wrapper hreach hw'
  rw [hw'] at hs
  obtain ⟨w'', rfl, h⟩ := Thread.step_wrapper hs
  refine ⟨w'', rfl, (Wrapper.step_spec h).2.2.trans hregs, List.mem_append_right _ hon, ?_⟩
  refine Wrapper.bound_step (sound_of_reachable hreach) ?_ ?_ hL hB h
  . -- the entry is behind it
    intro hentry
    have hmem : .sawMonitor i true ∈ Cfg.own c i := hon
    simp [hL.entry hentry] at hmem
  . intro _
    rw [hregs]
    exact hhooked.2

theorem Hooked.of_sameHooks {n : Fin K.nrSyscalls} (h : SameHooks c.shared c'.shared)
    (hc : Hooked n c) : Hooked n c' := by
  unfold Hooked
  rw [h.sys]
  exact hc

theorem transparent_iff_on (hreach : Reachable K T c) (hw : c.locals i = .wrapper w)
    (hentry : w.pc = .entry) (hfirst : (throttling K).step c (.run i .go) = some c₁)
    (hrun : (throttling K).Run (fun c _ => Hooked w.regs.origAx c) c₁ c')
    {w' : Wrapper K} {ret : Int}
    (hw' : c'.locals i = .wrapper w') (hdone : w'.pc = .done ret)
    : Transparent i (T.entry w.regs.origAx) w.regs ret (c'.own i)
      ↔ c.shared.st.mon.isMonitorActive ≠ 0 := by
  have hreach₁ := hreach.step hfirst
  rcases step_entry hw hentry hfirst with ⟨hoff, hw₁, hsaw⟩ | ⟨hon, hw₁, hsaw⟩
  . obtain ⟨seg, hseg⟩ := hrun.trace_append
    have hsaw' : .sawMonitor i false ∈ c'.trace := by
      rw [hseg]
      exact List.mem_append_right _ hsaw
    have hno := not_transparent_of_sawMonitor_false (T.entry w.regs.origAx) w.regs
      (reachable_trans hreach₁ hrun.reaches) hw' hdone hsaw'
    exact ⟨fun h => absurd h hno, fun h => absurd hoff h⟩
  . obtain ⟨w'', hw'', hregs, _, hB⟩ := bound_of_sawMonitor_true hreach₁ hw₁ hsaw trivial hrun
    refine ⟨fun _ => hon, fun _ => ?_⟩
    obtain rfl : w'' = w' := by simpa [hw''] using hw'
    have hregs : w''.regs = w.regs := hregs
    have htransparent := hB.done hdone
    rw [hregs] at htransparent
    exact htransparent

/--
A call of the wrapper is transparent exactly when the monitor is on as it begins, and as long as the
system call stays registered it comes to its end.
-/
theorem wrapper_transparent_iff (hreach : Reachable K T c) (hw : c.locals i = .wrapper w)
    (hentry : w.pc = .entry)
    (hfirst : (throttling K).step c (.run i .go) = some c₁)
    (hrun : (throttling K).Run (fun c _ => Hooked w.regs.origAx c) c₁ c')
    : (∀ w' ret, c'.locals i = .wrapper w' → w'.pc = .done ret →
        (Transparent i (T.entry w.regs.origAx) w.regs ret (c'.own i)
          ↔ c.shared.st.mon.isMonitorActive ≠ 0))
      ∧ (Hooked w.regs.origAx c' →
          Ends (Hooked w.regs.origAx) i
            (fun ret L => Transparent i (T.entry w.regs.origAx) w.regs ret L
              ↔ c.shared.st.mon.isMonitorActive ≠ 0) c') := by
  refine ⟨fun w' ret hw' hdone => transparent_iff_on hreach hw hentry hfirst hrun hw' hdone, ?_⟩
  intro hhooked
  have hcaller : ∃ w', c'.locals i = .wrapper w' := by
    have hall : (throttling K).Reaches c c' := .head _ trivial hfirst hrun.reaches
    obtain ⟨w', hw', _⟩ := wrapper_of_run hall hw
    exact ⟨w', hw'⟩
  apply Ends.of_sameHooks (reachable_trans (hreach.step hfirst) hrun.reaches) hcaller
    (fun _ _ => .of_sameHooks) hhooked
  intro c'' w'' ret hrun' hw'' hdone
  exact transparent_iff_on hreach hw hentry hfirst (hrun.trans hrun') hw'' hdone

end Call

/--
Callers 2, 3 and 4 take the tokens of the first epoch, and caller 1 is dispatched behind them.
-/
def dispatchedLast : List (Lbl Platform.sample) :=
  sampleSetup ++ (sampleCall 2 :: steps 2 5) ++ (sampleCall 3 :: steps 3 5)
    ++ (sampleCall 4 :: steps 4 5) ++ sampleCall 1 :: steps 1 1

def dispatchedOff : List (Lbl Platform.sample) :=
  sampleSetup ++ .run 9 (.start .switchOff) :: steps 9 5 ++ sampleCall 1 :: steps 1 1

theorem isSome_dispatchedLast : (sampleRun (fun _ _ => true) dispatchedLast).isSome := by
  decide

theorem isSome_dispatchedOff : (sampleRun (fun _ _ => true) dispatchedOff).isSome := by
  decide

/-- The first step of caller 1 from `c`, then `ls`, while the system call stays registered. -/
def sampleFinish (c : Cfg Platform.sample) (ls : List (Lbl Platform.sample))
    : Option (Cfg Platform.sample) :=
  ((throttling Platform.sample).step c (.run 1 .go)).bind fun c₁ =>
    (throttling Platform.sample).exec (fun c _ => decide (Hooked sampleRegs.origAx c)) c₁ ls

theorem run_sampleFinish {c c' : Cfg Platform.sample} {ls : List (Lbl Platform.sample)}
    (h : sampleFinish c ls = some c')
    : ∃ c₁, (throttling Platform.sample).step c (.run 1 .go) = some c₁
      ∧ (throttling Platform.sample).Run (fun c _ => Hooked sampleRegs.origAx c) c₁ c' := by
  obtain ⟨c₁, hfirst, h⟩ := Option.bind_eq_some_iff.mp h
  exact ⟨c₁, hfirst, (System.run_of_exec h).mono fun _ _ => of_decide_eq_true⟩

theorem isSome_finishLast
    : (sampleFinish ((sampleRun (fun _ _ => true) dispatchedLast).get isSome_dispatchedLast)
      (steps 1 9)).isSome := by
  decide

/-- Caller 1 falls asleep, and the next epoch brings its call to the end. -/
theorem wrapper_transparent_iff_asleep
    : ∃ c' c'' : Cfg Platform.sample, Asleep c' 1
        ∧ (throttling Platform.sample).Run
          (fun c l => Hooked sampleRegs.origAx c ∧ Timed 1 l) c' c''
        ∧ c''.Returned 1
          (Transparent 1 (SyscallTable.sample.entry sampleRegs.origAx) sampleRegs) := by
  obtain ⟨c₁, hfirst, hrun⟩ := run_sampleFinish (Option.some_get isSome_finishLast).symm
  have h := wrapper_transparent_iff (reachable_sampleRun isSome_dispatchedLast)
    (w := (Wrapper.initial sampleRegs 1000 (Comm.ofBytes [])).goto .entry) rfl rfl hfirst hrun
  obtain ⟨c'', hrun', w, ret, hw, hdone, hiff⟩ := (h.2 (by decide)).timed (by decide) (by decide)
  have hasleep : Asleep ((sampleFinish ((sampleRun (fun _ _ => true) dispatchedLast).get
      isSome_dispatchedLast) (steps 1 9)).get isSome_finishLast) 1 := ⟨rfl, by decide⟩
  exact ⟨_, c'', hasleep, hrun', w, ret, hw, hdone, hiff.mpr (by decide)⟩

theorem isSome_finishOff
    : (sampleFinish ((sampleRun (fun _ _ => true) dispatchedOff).get isSome_dispatchedOff)
      (steps 1 1)).isSome := by
  decide

theorem wrapper_loses_call
    : ∃ c c₁ c' : Cfg Platform.sample, ∃ w w' : Wrapper Platform.sample,
      Reachable Platform.sample SyscallTable.sample c
        ∧ c.locals 1 = .wrapper w ∧ w.pc = .entry ∧ w.regs = sampleRegs
        ∧ (throttling Platform.sample).step c (.run 1 .go) = some c₁
        ∧ (throttling Platform.sample).Run (fun c _ => Hooked sampleRegs.origAx c) c₁ c'
        ∧ Hooked sampleRegs.origAx c ∧ Hooked sampleRegs.origAx c'
        ∧ c'.locals 1 = .wrapper w' ∧ w'.pc = .done (-ENOSYS)
        ∧ ¬Transparent 1 (SyscallTable.sample.entry sampleRegs.origAx) sampleRegs (-ENOSYS)
          (c'.own 1) := by
  obtain ⟨c₁, hfirst, hrun⟩ := run_sampleFinish (Option.some_get isSome_finishOff).symm
  refine ⟨_, c₁, _, _, _, reachable_sampleRun isSome_dispatchedOff, rfl, rfl, rfl, hfirst, hrun,
    by decide, by decide, rfl, rfl, ?_⟩
  rintro ⟨_, hex | ⟨hint, _⟩⟩
  . exact absurd hex (by decide)
  . exact absurd hint (by decide)

end Throttling

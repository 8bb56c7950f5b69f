import SyscallThrottling.Lemmas.Writers
import SyscallThrottling.Spec.Hooks

/-!
This module contains the proof that registrations and deregistrations of system calls that run at
the same time are linearizable: they behave like updates of a set that are made one after another.
-/

namespace Throttling

open Interleaving Linearization SyscallRegistry

variable {K : Platform}

def Shared.hooked (s : Shared K) : Finset (Fin K.nrSyscalls) :=
  Finset.univ.filter fun n => s.st.sys.syscallArray n ≠ 0

def Register.op (f : Register K) : HookOp K :=
  .register (f.env.kmalloc 0 40 && f.env.kmalloc 1 40) f.safeNr

/--
A registration takes effect when it writes the flag, or when it finds that it is set, or that there
is no memory.
-/
def Register.progress (f : Register K) : Progress (HookOp K) Int :=
  match f.pc with
  | .present _ _ => .effective f.op (-EEXIST)
  | .hash _ => .effective f.op 0
  | .count => .effective f.op 0
  | .unlock => .effective f.op 0
  | .done ret => .effective f.op ret
  | _ => .pending f.op

def Deregister.progress (f : Deregister K) : Progress (HookOp K) Int :=
  match f.pc with
  | .lock => .pending (.deregister f.safeNr)
  | .check => .pending (.deregister f.safeNr)
  | .find => .pending (.deregister f.safeNr)
  | .table _ => .pending (.deregister f.safeNr)
  | .flag _ => .pending (.deregister f.safeNr)
  | .fail ret => .effective (.deregister f.safeNr) ret
  | .done ret => .effective (.deregister f.safeNr) ret
  | _ => .effective (.deregister f.safeNr) 0

def Thread.progress : Thread K → Progress (HookOp K) Int
  | .register f => f.progress
  | .deregister f => f.progress
  | _ => .idle

section Steps

variable {T : SyscallTable K} {i : Nat} {s s' : Shared K} {n : Fin K.nrSyscalls}

theorem Shared.mem_hooked : n ∈ s.hooked ↔ s.st.sys.syscallArray n ≠ 0 := by
  simp [hooked]

theorem SameHooks.hooked (h : SameHooks s s') : s'.hooked = s.hooked := by
  unfold Shared.hooked
  rw [h.sys]

theorem Shared.hooked_setArray_one (s : Shared K) (n : Fin K.nrSyscalls)
    : (s.setSys (s.st.sys.setArray n 1)).hooked = insert n s.hooked := by
  ext k
  by_cases hk : k = n
  . simp [mem_hooked, setSys, hk]
  . simp [mem_hooked, setSys, hk]

theorem Shared.hooked_setArray_zero (s : Shared K) (n : Fin K.nrSyscalls)
    : (s.setSys (s.st.sys.setArray n 0)).hooked = s.hooked.erase n := by
  ext k
  by_cases hk : k = n
  . simp [mem_hooked, setSys, hk]
  . simp [mem_hooked, setSys, hk]

theorem Advance.effect {op : HookOp K} {ret : Int} {S S' : Finset (Fin K.nrSyscalls)}
    (h : op.apply S = (ret, S'))
    : (hooks K).Advance S (.pending op) S' (.effective op ret) := by
  have heffect := Object.Advance.effect (O := hooks K) (s := S) op
  simp only [hooks, h] at heffect
  exact heffect

/--
What a call in progress knows beyond its phase: a registration past its allocations was granted two
nodes, and a deregistration that looks for its node has seen the flag.
-/
def Thread.Midcall (s : Shared K) : Thread K → Prop
  | .register f =>
    match f.pc with
    | .alloc => True
    | .done _ => True
    | _ => f.op = .register true f.safeNr
  | .deregister f => f.pc = .find → s.st.sys.syscallArray f.safeNr ≠ 0
  | _ => True

theorem registerKey_of_mem {S : Finset (Fin K.nrSyscalls)} (h : n ∈ S)
    : registerKey n S = (-EEXIST, S) :=
  if_pos h

theorem registerKey_of_not_mem {S : Finset (Fin K.nrSyscalls)} (h : n ∉ S)
    : registerKey n S = (0, insert n S) :=
  if_neg h

theorem deregisterKey_of_mem {S : Finset (Fin K.nrSyscalls)} (h : n ∈ S)
    : deregisterKey n S = (0, S.erase n) :=
  if_pos h

theorem deregisterKey_of_not_mem {S : Finset (Fin K.nrSyscalls)} (h : n ∉ S)
    : deregisterKey n S = (-ENOENT, S) :=
  if_neg h

theorem Register.advance {f f' : Register K} (hp : Thread.Phase T i s (.register f))
    (hm : Thread.Midcall s (.register f)) (hs : f.step i s = some (s', f'))
    : (hooks K).Advance s.hooked f.progress s'.hooked f'.progress
      ∧ Thread.Midcall s' (.register f') := by
  obtain ⟨env, n, pc⟩ := f
  cases pc with
  | alloc =>
    have hsize : (40 : Nat) ≠ 0 ∧ (40 : Nat) < 2 ^ 63 := by decide
    simp only [step, Heap.kmalloc_eq _ _ hsize.1 hsize.2] at hs
    cases h0 : env.kmalloc 0 40 with
    | false =>
      simp only [h0] at hs
      cases hs
      refine ⟨?_, trivial⟩
      apply Advance.effect
      simp only [op, h0, Bool.false_and, HookOp.apply]
      rfl
    | true =>
      cases h1 : env.kmalloc 1 40 with
      | false =>
        simp only [h0, h1, if_true] at hs
        cases hs
        refine ⟨?_, trivial⟩
        apply Advance.effect
        simp only [op, h0, h1, Bool.and_false, HookOp.apply]
        rfl
      | true =>
        simp only [h0, h1, if_true] at hs
        cases hs
        refine ⟨.skip, ?_⟩
        simp only [Thread.Midcall, goto, op, h0, h1, Bool.and_true]
  | lock stats newHack =>
    simp only [step] at hs
    split at hs
    . cases hs
      exact ⟨.skip, hm⟩
    . contradiction
  | check stats newHack =>
    simp only [step] at hs
    split at hs
    . next hflag =>
      cases hs
      refine ⟨?_, hm⟩
      apply Advance.effect
      rw [show op _ = HookOp.register true n from hm, HookOp.apply]
      apply registerKey_of_mem
      exact Shared.mem_hooked.mpr hflag
    . cases hs
      exact ⟨.skip, hm⟩
  | present stats newHack =>
    cases hs
    exact ⟨.skip, trivial⟩
  | save stats newHack =>
    cases hs
    exact ⟨.skip, hm⟩
  | table node =>
    cases hs
    exact ⟨.skip, hm⟩
  | flag node =>
    obtain ⟨_, _, hmid⟩ := hp rfl
    cases hs
    refine ⟨?_, hm⟩
    rw [Shared.hooked_setArray_one]
    apply Advance.effect
    rw [show op _ = HookOp.register true n from hm, HookOp.apply]
    apply registerKey_of_not_mem
    simp [Shared.mem_hooked, hmid.flag]
  | hash node =>
    cases hs
    exact ⟨.skip, hm⟩
  | count =>
    cases hs
    exact ⟨.skip, hm⟩
  | unlock =>
    cases hs
    exact ⟨.skip, trivial⟩
  | done ret => cases hs

theorem Thread.Midcall.goto {f : Deregister K} {pc : DeregisterPc K} (h : pc ≠ .find)
    : Midcall s (.deregister (f.goto pc)) :=
  fun hf => absurd hf h

theorem Deregister.advance {f f' : Deregister K} (hp : Thread.Phase T i s (.deregister f))
    (hm : Thread.Midcall s (.deregister f)) (hs : f.step i s = some (s', f'))
    : (hooks K).Advance s.hooked f.progress s'.hooked f'.progress
      ∧ Thread.Midcall s' (.deregister f') := by
  obtain ⟨n, pc⟩ := f
  cases pc with
  | lock =>
    simp only [step] at hs
    split at hs
    . cases hs
      exact ⟨.skip, .goto (by simp)⟩
    . contradiction
  | check =>
    simp only [step] at hs
    split at hs
    . next hflag =>
      cases hs
      refine ⟨?_, .goto (by simp)⟩
      apply Advance.effect
      rw [HookOp.apply]
      apply deregisterKey_of_not_mem
      simp [Shared.mem_hooked, hflag]
    . next hflag =>
      cases hs
      exact ⟨.skip, fun _ => hflag⟩
  | find =>
    obtain ⟨_, hr⟩ := hp rfl
    have hr : Consistent T s.st.sys := hr
    simp only [step] at hs
    split at hs
    . next hl =>
      -- the flag is set, so that there is a node
      have hout := hr.lookup_eq_none.mp hl
      exact absurd (hr.not_mem_numbers_iff.mp hout) (hm rfl)
    . cases hs
      exact ⟨.skip, .goto (by simp)⟩
  | fail ret =>
    cases hs
    exact ⟨.skip, .goto (by simp)⟩
  | table x =>
    cases hs
    exact ⟨.skip, .goto (by simp)⟩
  | flag x =>
    obtain ⟨_, _, hmid⟩ := hp rfl
    cases hs
    refine ⟨?_, .goto (by simp)⟩
    rw [Shared.hooked_setArray_zero]
    apply Advance.effect
    rw [HookOp.apply]
    apply deregisterKey_of_mem
    simp [Shared.mem_hooked, hmid.flag]
  | hash x =>
    cases hs
    exact ⟨.skip, .goto (by simp)⟩
  | count x =>
    cases hs
    exact ⟨.skip, .goto (by simp)⟩
  | unlock x =>
    cases hs
    exact ⟨.skip, .goto (by simp)⟩
  | synchronize x =>
    cases hs
    exact ⟨.skip, .goto (by simp)⟩
  | free x waitFor =>
    simp only [step] at hs
    split at hs
    . cases hs
      exact ⟨.skip, .goto (by simp)⟩
    . contradiction
  | done ret => cases hs

theorem Thread.step_other {t t' : Thread K} {ch : Choice (Task K)} {ev : List (Event K)}
    (hp : t.Phase T i s) (h : t.step i ch s = some (s', t', ev)) {j : Nat} (hne : j ≠ i)
    : SameHooks s s' ∨ s.writeLock ≠ some j := by
  rcases step_cases h with ⟨_, _, rfl, _⟩ | ⟨_, _, _, _, h⟩ | ⟨_, _, _, _, h, _⟩
    | ⟨_, _, _, _, h, _⟩ | ⟨f, _, rfl, _, h, _⟩ | ⟨f, _, rfl, _, h, _⟩
  . exact .inl (.of_eq rfl rfl)
  . have hframe := (Wrapper.step_spec h).1
    exact .inl ⟨hframe.writeLock, hframe.sys⟩
  . exact .inl (SwitchOnPc.step_frame h).sameHooks
  . exact .inl (SwitchOffPc.step_frame h).sameHooks
  . apply Register.step_other hp h hne
  . apply Deregister.step_other hp h hne

theorem Thread.advance {t t' : Thread K} {ch : Choice (Task K)} {ev : List (Event K)}
    (hp : t.Phase T i s) (hm : t.Midcall s) (h : t.step i ch s = some (s', t', ev))
    : (hooks K).Advance s.hooked t.progress s'.hooked t'.progress ∧ t'.Midcall s' := by
  rcases step_cases h with ⟨rfl, _, rfl, task, _, rfl⟩ | ⟨w, w', rfl, rfl, hs⟩
    | ⟨_, _, rfl, rfl, hs, _⟩
    | ⟨_, _, rfl, rfl, hs, _⟩ | ⟨f, f', rfl, rfl, hs, _⟩ | ⟨f, f', rfl, rfl, hs, _⟩
  . cases task with
    | register env sysNum => exact ⟨.call _, trivial⟩
    | deregister sysNum => exact ⟨.call _, nofun⟩
    | _ => exact ⟨.skip, trivial⟩
  . have hframe := (Wrapper.step_spec hs).1
    rw [SameHooks.hooked ⟨hframe.writeLock, hframe.sys⟩]
    exact ⟨.skip, trivial⟩
  . rw [(SwitchOnPc.step_frame hs).sameHooks.hooked]
    exact ⟨.skip, trivial⟩
  . rw [(SwitchOffPc.step_frame hs).sameHooks.hooked]
    exact ⟨.skip, trivial⟩
  . apply Register.advance hp hm hs
  . apply Deregister.advance hp hm hs

theorem SameHooks.midcall {t : Thread K} (h : SameHooks s s') (hm : t.Midcall s)
    : t.Midcall s' := by
  cases t with
  | deregister f =>
    intro hfind
    rw [h.sys]
    exact hm hfind
  | _ => exact hm

theorem Thread.Midcall.of_holder {t : Thread K} {j : Nat} (hp : t.Phase T j s)
    (hother : SameHooks s s' ∨ s.writeLock ≠ some j) (hm : t.Midcall s) : t.Midcall s' := by
  rcases hother with hsame | hlock
  . exact hsame.midcall hm
  . cases t with
    | deregister f =>
      intro hfind
      have hholds : f.holds = true := by
        rw [Deregister.holds, hfind]
      exact absurd (hp hholds).1 hlock
    | _ => exact hm

end Steps

def updatesOutline (T : SyscallTable K) : System.Outline (throttling K) (fun _ _ => True) where
  shared s _ := Guarded T s
  thread i s _ t := t.Phase T i s ∧ t.Midcall s
  env_ok := by
    intro c e s ev hG hg hs
    obtain ⟨hg', hphase⟩ := (hooksOutline T).env_ok c e s ev hG hg hs
    refine ⟨hg', ?_⟩
    intro j t ht
    exact ⟨hphase j t ht.1, (Shared.sameHooks hs).midcall ht.2⟩
  thread_ok := by
    intro c i ch s t ev hG hg ht hs
    obtain ⟨hg', hphase, hothers⟩ := (hooksOutline T).thread_ok c i ch s t ev hG hg ht.1 hs
    refine ⟨hg', ⟨hphase, (Thread.advance ht.1 ht.2 hs).2⟩, ?_⟩
    intro j t' hne ht'
    exact ⟨hothers j t' hne ht'.1, ht'.2.of_holder ht'.1 (Thread.step_other ht.1 hs hne)⟩

theorem updatesOutline_loaded (T : SyscallTable K) (stats : Ptr → SyscallStats) (now : Nat)
    : (updatesOutline T).Holds (loaded K T stats now) :=
  ⟨guarded_of_consistent (.initial T stats now), fun _ => ⟨nofun, trivial⟩⟩

theorem updates_refine (T : SyscallTable K)
    : Refines (throttling K) Thread.progress (hooks K) Shared.hooked (updatesOutline T).Holds where
  env h hs := by
    obtain ⟨s, ev, heq, rfl⟩ := System.step_env hs
    exact (Shared.sameHooks heq).hooked
  run {c i ch c'} h hs := by
    obtain ⟨s, t, ev, heq, rfl⟩ := System.step_run hs
    dsimp only
    rw [Function.update_self]
    exact (Thread.advance (h.2 i).1 (h.2 i).2 heq).1

/-- The updates of the registry in the run with the labels `ls`, in the order they take effect. -/
def updates (T : SyscallTable K) (stats : Ptr → SyscallStats) (now : Nat) (ls : List (Lbl K))
    : List (Entry (HookOp K) Int) :=
  Linearization.history (throttling K) Thread.progress (loaded K T stats now) ls

theorem explained_updates {T : SyscallTable K} {stats : Ptr → SyscallStats} {now : Nat}
    {ls : List (Lbl K)} {c : Cfg K}
    (h : (throttling K).exec (fun _ _ => true) (loaded K T stats now) ls = some c)
    : Explained Thread.progress (hooks K) Shared.hooked ∅ c (updates T stats now ls) := by
  have hempty : (loaded K T stats now).shared.hooked = ∅ := by
    ext n
    simp [Shared.mem_hooked, loaded, State.loaded, State.initial]
  have h0 : Explained Thread.progress (hooks K) Shared.hooked ∅ (loaded K T stats now) [] := by
    rw [← hempty]
    exact .initial fun _ => rfl
  apply h0.exec (updates_refine T) _ (updatesOutline_loaded T stats now) h
  intro c l c' hI hs
  apply (updatesOutline T).holds_step hI trivial hs

/--
Registrations and deregistrations that run at the same time are linearizable: at any point of any
run, those that have taken effect have done so one after another, with the return values and the
final state of a set; and what the run goes on to do only adds to this history, so that a call that
has returned comes before each that starts later.
-/
theorem updates_linearizable (T : SyscallTable K) (stats : Ptr → SyscallStats) (now : Nat)
    (ls ls' : List (Lbl K)) {c c' : Cfg K}
    (h : (throttling K).exec (fun _ _ => true) (loaded K T stats now) ls = some c)
    (h' : (throttling K).exec (fun _ _ => true) c ls' = some c')
    : Explained Thread.progress (hooks K) Shared.hooked ∅ c (updates T stats now ls)
      ∧ Explained Thread.progress (hooks K) Shared.hooked ∅ c' (updates T stats now (ls ++ ls'))
      ∧ updates T stats now ls <+: updates T stats now (ls ++ ls') := by
  refine ⟨explained_updates h, ?_, ?_⟩
  . apply explained_updates
    rw [exec_append ls ls' h]
    exact h'
  . rw [updates, updates, history_append ls ls' h]
    apply List.prefix_append

/--
Two registrations and a deregistration of 83 run at the same time: the second registration takes
effect after the deregistration, which has still to wait for the readers then.
-/
def overlapping : List (Lbl Platform.sample) :=
  .run 0 (.start (.register Env.sample 83)) :: .run 2 (.start (.register Env.sample 83))
    :: steps 0 4 ++ steps 2 1 ++ .run 1 (.start (.deregister 83)) :: steps 0 5

def overlappingEnd : List (Lbl Platform.sample) :=
  steps 1 8 ++ steps 2 4 ++ steps 1 1 ++ steps 2 4 ++ steps 1 1

theorem isSome_overlapping : (sampleRun (fun _ _ => true) overlapping).isSome := by
  decide

theorem isSome_overlappingEnd
    : ((throttling Platform.sample).exec (fun _ _ => true)
      ((sampleRun (fun _ _ => true) overlapping).get isSome_overlapping) overlappingEnd).isSome := by
  decide

theorem updates_linearizable_overlapping
    : let H := updates SyscallTable.sample (fun _ => .zero) 0 (overlapping ++ overlappingEnd)
      let n := sampleRegs.origAx
      H = [⟨0, .register true n, 0⟩, ⟨1, .deregister n, 0⟩, ⟨2, .register true n, 0⟩]
        ∧ ∃ c : Cfg Platform.sample,
          Explained Thread.progress (hooks Platform.sample) Shared.hooked ∅ c H := by
  intro H n
  refine ⟨by decide, ?_⟩
  exact ⟨_, (updates_linearizable SyscallTable.sample (fun _ => .zero) 0 overlapping overlappingEnd
    (Option.some_get isSome_overlapping).symm (Option.some_get isSome_overlappingEnd).symm).2.1⟩

theorem exists_apply_of_reachable {T : SyscallTable K} {c : Cfg K} (h : Reachable K T c) {i : Nat}
    {op : HookOp K} {ret : Int} (hi : (c.locals i).progress = .effective op ret)
    : ∃ S, (op.apply S).1 = ret := by
  obtain ⟨stats, now, h⟩ := h
  obtain ⟨ls, hls⟩ := exists_exec h
  apply (explained_updates hls).exists_apply hi

/--
The errors of the two calls, in any interleaving. A deregistration never returns `-EFAULT`: where
the flag is set, there is a node.
-/
theorem updates_return {T : SyscallTable K} {c : Cfg K} (h : Reachable K T c) (i : Nat) (ret : Int)
    : (∀ f, c.locals i = .register f → f.pc = .done ret →
        if f.env.kmalloc 0 40 && f.env.kmalloc 1 40 then ret = 0 ∨ ret = -EEXIST else ret = -ENOMEM)
      ∧ (∀ f, c.locals i = .deregister f → f.pc = .done ret → ret = 0 ∨ ret = -ENOENT) := by
  constructor
  . intro f hf hdone
    have hi : (c.locals i).progress = .effective f.op ret := by
      rw [hf, Thread.progress, Register.progress, hdone]
    obtain ⟨S, hS⟩ := exists_apply_of_reachable h hi
    unfold Register.op at hS
    cases hgranted : (f.env.kmalloc 0 40 && f.env.kmalloc 1 40) with
    | false =>
      rw [hgranted] at hS
      exact hS.symm
    | true =>
      rw [hgranted, HookOp.apply, registerKey] at hS
      split at hS
      . exact .inr hS.symm
      . exact .inl hS.symm
  . intro f hf hdone
    have hi : (c.locals i).progress = .effective (.deregister f.safeNr) ret := by
      rw [hf, Thread.progress, Deregister.progress, hdone]
    obtain ⟨S, hS⟩ := exists_apply_of_reachable h hi
    rw [HookOp.apply, deregisterKey] at hS
    split at hS
    . exact .inl hS.symm
    . exact .inr hS.symm

theorem updates_return_sample
    : let c := (sampleRun (fun _ _ => true) sampleSetup).get (by decide)
      ∀ f, c.locals 0 = .register f → f.pc = .done 0 →
        if f.env.kmalloc 0 40 && f.env.kmalloc 1 40 then (0 : Int) = 0 ∨ (0 : Int) = -EEXIST
          else (0 : Int) = -ENOMEM :=
  (updates_return (reachable_sampleRun (by decide)) 0 0).1

end Throttling

import SyscallThrottling.Lemmas.Progress
import SyscallThrottling.Lemmas.Wrapper

/-!
This module contains the proof that the calls and the timer handler, whose steps may interleave, do
what the functions of the sequential model do when nothing comes between their steps.
-/

namespace Throttling

open Interleaving

variable {K : Platform} {i : Nat}

/-- Thread `i` runs from `t` to `t'` without a step of anyone else, and logs nothing. -/
def Sequential (i : Nat) (s : Shared K) (t : Thread K) (s' : Shared K) (t' : Thread K) : Prop :=
  ∀ trace, (throttling K).Solo i Choice.Unsignalled s t trace s' t' trace

section Rules

variable {s s₁ s' : Shared K} {t t₁ t' : Thread K}

theorem Sequential.head (h : t.step i .go s = some (s₁, t₁, [])) (hnext : Sequential i s₁ t₁ s' t')
    : Sequential i s t s' t' := by
  intro trace
  refine .head .go trivial h ?_
  exact hnext trace

theorem Sequential.refl : Sequential i s t s t :=
  fun _ => .refl

theorem Sequential.switchOn {pc pc₁ : SwitchOnPc} (h : pc.step s = some (s₁, pc₁))
    (hnext : Sequential i s₁ (.switchOn pc₁) s' t') : Sequential i s (.switchOn pc) s' t' :=
  .head (by simp only [Thread.step, h, Option.map_some]) hnext

theorem Sequential.switchOff {pc pc₁ : SwitchOffPc} (h : pc.step s = some (s₁, pc₁))
    (hnext : Sequential i s₁ (.switchOff pc₁) s' t') : Sequential i s (.switchOff pc) s' t' :=
  .head (by simp only [Thread.step, h, Option.map_some]) hnext

theorem Sequential.register {f f₁ : Register K} (h : f.step i s = some (s₁, f₁))
    (hnext : Sequential i s₁ (.register f₁) s' t') : Sequential i s (.register f) s' t' :=
  .head (by simp only [Thread.step, h, Option.map_some]) hnext

theorem Sequential.deregister {f f₁ : Deregister K} (h : f.step i s = some (s₁, f₁))
    (hnext : Sequential i s₁ (.deregister f₁) s' t') : Sequential i s (.deregister f) s' t' :=
  .head (by simp only [Thread.step, h, Option.map_some]) hnext

end Rules

theorem switchOn_sequential (s : Shared K)
    : Sequential i s (.switchOn .cmpxchg) (s.setMon (s.st.mon.switchOnMonitor K).2)
        (.switchOn (.done (s.st.mon.switchOnMonitor K).1)) := by
  unfold Monitor.switchOnMonitor
  by_cases hoff : s.st.mon.isMonitorActive = 0
  . rw [if_pos hoff]
    refine .switchOn (if_pos hoff) ?_
    refine .switchOn rfl ?_
    refine .switchOn rfl ?_
    refine .switchOn rfl ?_
    exact .refl
  . rw [if_neg hoff]
    refine .switchOn (if_neg hoff) ?_
    exact .refl

theorem switchOff_sequential (s : Shared K) (hhandler : s.handler = none)
    : Sequential i s (.switchOff .cmpxchg) (s.setMon s.st.mon.switchOffMonitor.2)
        (.switchOff (.done s.st.mon.switchOffMonitor.1)) := by
  unfold Monitor.switchOffMonitor
  by_cases hon : s.st.mon.isMonitorActive = 1
  . rw [if_pos hon]
    refine .switchOff (if_pos hon) ?_
    refine .switchOff rfl ?_
    refine .switchOff rfl ?_
    refine .switchOff rfl ?_
    -- no handler is running that `timer_delete_sync` would wait for
    refine .switchOff (if_pos hhandler) ?_
    exact .refl
  . rw [if_neg hon]
    refine .switchOff (if_neg hon) ?_
    exact .refl

theorem register_sequential (env : Env) (sysNum : Int) (st : State K) (handler : Option HandlerPc)
    (sections : List Nat)
    : Sequential i ⟨st, none, handler, sections⟩ (Task.register env sysNum).thread
        ⟨(registerSystemCall env sysNum st).2, none, handler, sections⟩
        (.register ⟨env, arrayIndexNospec K sysNum, .done (registerSystemCall env sysNum st).1⟩) := by
  unfold registerSystemCall Task.thread
  cases h0 : st.heap.kmalloc (env.kmalloc 0 40) 40 with
  | mk stats heap =>
    cases stats with
    | none =>
      refine .register (by simp only [Register.step, h0]; rfl) ?_
      exact .refl
    | some stats =>
      dsimp only
      cases h1 : heap.kmalloc (env.kmalloc 1 40) 40 with
      | mk newHack heap' =>
        cases newHack with
        | none =>
          refine .register (by simp only [Register.step, h0, h1]; rfl) ?_
          exact .refl
        | some newHack =>
          dsimp only
          refine .register (by simp only [Register.step, h0, h1]; rfl) ?_
          refine .register rfl ?_
          by_cases hflag : st.sys.syscallArray (arrayIndexNospec K sysNum) ≠ 0
          . rw [if_pos hflag]
            refine .register (if_pos hflag) ?_
            refine .register rfl ?_
            exact .refl
          . rw [if_neg hflag]
            refine .register (if_neg hflag) ?_
            refine .register rfl ?_
            refine .register rfl ?_
            refine .register rfl ?_
            refine .register rfl ?_
            refine .register rfl ?_
            refine .register rfl ?_
            exact .refl

/-- Where no section was open, `synchronize_rcu` waits for nothing. -/
theorem Deregister.step_free (s : Shared K) (n : Fin K.nrSyscalls) (toRemove : HackedSyscall K)
    : Deregister.step i s ⟨n, .free toRemove []⟩
      = some (s.setHeap ((s.st.heap.kfree toRemove.stats).kfree toRemove.addr), ⟨n, .done 0⟩) := by
  simp [Deregister.step, Deregister.goto]

theorem deregister_sequential (sysNum : Int) (st : State K) (handler : Option HandlerPc)
    : Sequential i ⟨st, none, handler, []⟩ (Task.deregister sysNum).thread
        ⟨(deregisterSystemCall sysNum st).2, none, handler, []⟩
        (.deregister ⟨arrayIndexNospec K sysNum, .done (deregisterSystemCall sysNum st).1⟩) := by
  unfold deregisterSystemCall Task.thread
  dsimp only
  refine .deregister rfl ?_
  by_cases hflag : st.sys.syscallArray (arrayIndexNospec K sysNum) = 0
  . rw [if_pos hflag]
    refine .deregister (if_pos hflag) ?_
    refine .deregister rfl ?_
    exact .refl
  . rw [if_neg hflag]
    refine .deregister (if_neg hflag) ?_
    cases hl : st.sys.lookup (arrayIndexNospec K sysNum) with
    | none =>
      refine .deregister (by simp only [Deregister.step, Deregister.goto, hl]; rfl) ?_
      refine .deregister rfl ?_
      exact .refl
    | some toRemove =>
      refine .deregister (by simp only [Deregister.step, Deregister.goto, hl]; rfl) ?_
      refine .deregister rfl ?_
      refine .deregister rfl ?_
      refine .deregister rfl ?_
      refine .deregister rfl ?_
      refine .deregister rfl ?_
      refine .deregister rfl ?_
      refine .deregister (Deregister.step_free _ _ _) ?_
      exact .refl

def Handled (s s' : Shared K) : Prop :=
  ∀ c : Cfg K, c.shared = s → ∃ ev, (throttling K).Run (fun _ l => l = .env .handler) c
    { c with shared := s', trace := ev ++ c.trace }

theorem Handled.refl {s : Shared K} : Handled s s := by
  intro c hc
  subst hc
  exact ⟨[], .refl⟩

theorem Handled.head {s s₁ s' : Shared K} {pc : HandlerPc} {ev : List (Event K)}
    (hpc : s.handler = some pc) (h : pc.step s = (s₁, ev)) (hnext : Handled s₁ s')
    : Handled s s' := by
  intro c hc
  subst hc
  obtain ⟨ev', hrun⟩ := hnext { c with shared := s₁, trace := ev ++ c.trace } rfl
  refine ⟨ev' ++ ev, ?_⟩
  rw [List.append_assoc]
  refine .head (.env .handler) rfl ?_ hrun
  simp only [System.step, throttling, Shared.envStep, hpc, Option.map_some, h]

theorem handled_readExponential {s : Shared K} {max : Int} {currBlocked : UInt64}
    (hpc : s.handler = some (.readExponential max currBlocked))
    : let m := { s.st.mon with
        exponential := Monitor.nextExponential s.st.mon.exponential currBlocked
        currSyscalls := max }
      Handled s ((s.setMon (m.wakeUp.modTimer (m.jiffies + K.HZ))).setHandler none) := by
  intro m
  refine .head hpc rfl ?_
  refine .head rfl rfl ?_
  refine .head rfl rfl ?_
  refine .head rfl rfl ?_
  refine .head rfl rfl ?_
  exact .refl

theorem handler_sequential (s : Shared K) (hpc : s.handler = some .check)
    : Handled s ((s.setMon (s.st.mon.epochHandler K)).setHandler none) := by
  unfold Monitor.epochHandler
  by_cases hoff : s.st.mon.isMonitorActive = 0
  . rw [if_pos hoff]
    refine .head hpc (if_pos hoff) ?_
    exact .refl
  . rw [if_neg hoff]
    dsimp only
    refine .head hpc (if_neg hoff) ?_
    refine .head rfl rfl ?_
    refine .head rfl rfl ?_
    refine .head rfl rfl ?_
    by_cases hpeak : (s.st.mon.addSumBlocked s.st.mon.blockedUlong).peakExceeded s.st.mon.blockedUlong
    . -- the new peak is not computed
      obtain ⟨info, hinfo⟩ := (s.st.mon.addSumBlocked s.st.mon.blockedUlong).setPeakBlocked_eq
        s.st.mon.blockedUlong
      rw [if_pos hpeak, hinfo]
      refine .head rfl (if_pos hpeak) ?_
      refine .head rfl (congrArg (fun m => ((Shared.setMon _ m).setHandler
        (some (.readExponential _ _)), [])) hinfo) ?_
      exact handled_readExponential rfl
    . rw [if_neg hpeak]
      refine .head rfl (if_neg hpeak) ?_
      exact handled_readExponential rfl

def Monitor.expireAt (m : Monitor) (expires : Nat) : Monitor :=
  { m with
    jiffies := m.jiffies + (expires - m.jiffies)
    epochTimer := none }

/-- A timer that is armed and a handler that is left alone run a whole epoch. -/
theorem epoch_sequential (c : Cfg K) (hidle : c.shared.handler = none) {expires : Nat}
    (htimer : c.shared.st.mon.epochTimer = some expires)
    : ∃ c', (throttling K).Reaches c c' ∧ c'.locals = c.locals ∧ c'.shared.handler = none
      ∧ c'.shared.st.mon = (c.shared.st.mon.expireAt expires).epochHandler K := by
  let d := expires - c.shared.st.mon.jiffies
  let due := c.shared.setMon { c.shared.st.mon with jiffies := c.shared.st.mon.jiffies + d }
  let fired := (due.setMon { due.st.mon with epochTimer := none }).setHandler (some .check)
  have htick : (throttling K).step c (.env (.tick d)) = some { c with shared := due } := rfl
  have hfire : due.envStep .expire = some (fired, []) := by
    have hle : expires ≤ due.st.mon.jiffies := by
      dsimp only [due, d, Shared.setMon]
      omega
    have hdue : due.st.mon.epochTimer = some expires := htimer
    have hhandler : due.handler = none := hidle
    simp only [Shared.envStep, hdue, hhandler, if_pos hle]
    rfl
  have hexpire : (throttling K).step { c with shared := due } (.env .expire)
      = some { c with shared := fired } := by
    simp only [System.step, throttling, hfire, List.nil_append]
  obtain ⟨ev, hrun⟩ := handler_sequential fired rfl { c with shared := fired } rfl
  have hreach : (throttling K).Reaches c _ :=
    .head (.env (.tick d)) trivial htick (.head (.env .expire) trivial hexpire hrun.reaches)
  exact ⟨_, hreach, rfl, rfl, rfl⟩

end Throttling

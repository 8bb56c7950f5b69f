import SyscallThrottling.Lemmas.Liveness
import SyscallThrottling.Lemmas.Sequential

/-!
This module contains the two windows in which the node of a system call is not there to be found,
one of its registration and one of its deregistration, and the proof that the node is there outside
them.
-/

namespace Throttling

open Interleaving SyscallRegistry

variable {K : Platform} {T : SyscallTable K}

namespace SyscallRegistry

variable {r : SyscallRegistry K} {n k : Fin K.nrSyscalls} {h : Handler} {v d : Int} {m : Bool}

theorem Linked.isSome_lookup (hr : Linked T r) : (r.lookup n).isSome ↔ n ∈ r.numbers := by
  rw [← Option.ne_none_iff_isSome, ne_eq, hr.lookup_eq_none, not_not]

theorem Settled.mem_iff (hr : Settled T r n)
    : n ∈ r.numbers ↔ r.hackedSyscallTbl n = .throttlingWrapper := by
  rcases hr with ⟨hin, _, htbl⟩ | ⟨hout, _, htbl⟩
  . exact iff_of_true hin htbl
  . rw [htbl]
    exact iff_of_false hout (T.original n)

theorem Midway.mem_iff_of_ne (hr : Midway T r k h v m d) (hne : n ≠ k)
    : n ∈ r.numbers ↔ r.hackedSyscallTbl n = .throttlingWrapper :=
  (hr.others n hne).mem_iff

end SyscallRegistry

def Register.Hooking (n : Fin K.nrSyscalls) (f : Register K) : Prop :=
  f.safeNr = n ∧ ((∃ node, f.pc = .flag node) ∨ ∃ node, f.pc = .hash node)

def Deregister.Unhooking (n : Fin K.nrSyscalls) (f : Deregister K) : Prop :=
  f.safeNr = n ∧ ((∃ x, f.pc = .flag x) ∨ ∃ x, f.pc = .hash x)

section Facts

variable {r : SyscallRegistry K} {n : Fin K.nrSyscalls}

theorem Register.Hooking.holds {f : Register K} (h : f.Hooking n) : f.holds = true := by
  obtain ⟨_, ⟨_, hpc⟩ | ⟨_, hpc⟩⟩ := h
  all_goals
    rw [Register.holds, hpc]

theorem Deregister.Unhooking.holds {f : Deregister K} (h : f.Unhooking n) : f.holds = true := by
  obtain ⟨_, ⟨_, hpc⟩ | ⟨_, hpc⟩⟩ := h
  all_goals
    rw [Deregister.holds, hpc]

theorem Register.Facts.mem_iff {f : Register K} (hf : f.Facts T r)
    : n ∈ r.numbers ↔ r.hackedSyscallTbl n = .throttlingWrapper ∧ ¬f.Hooking n := by
  obtain ⟨env, k, pc⟩ := f
  -- away from `k` nothing is going on
  have hne : ∀ {h : Handler} {v d : Int} {m : Bool}, Midway T r k h v m d → n ≠ k →
      (n ∈ r.numbers ↔ r.hackedSyscallTbl n = .throttlingWrapper
        ∧ ¬Register.Hooking n ⟨env, k, pc⟩) := by
    intro h v d m hmid hne
    rw [hmid.mem_iff_of_ne hne, Hooking]
    simp [hne.symm]
  cases pc with
  | save stats newHack =>
    rw [(hf.1.settled n).mem_iff]
    simp [Hooking]
  | table node =>
    have hmid : Midway T r k (T.entry k) 0 false 0 := hf.2
    by_cases hn : n = k
    . subst hn
      simp [hmid.mem, hmid.tbl, T.original]
    . exact hne hmid hn
  | flag node =>
    have hmid : Midway T r k .throttlingWrapper 0 false 0 := hf.2
    by_cases hn : n = k
    . subst hn
      simp [hmid.mem, Hooking]
    . exact hne hmid hn
  | hash node =>
    have hmid : Midway T r k .throttlingWrapper 1 false 0 := hf.2
    by_cases hn : n = k
    . subst hn
      simp [hmid.mem, Hooking]
    . exact hne hmid hn
  | count =>
    have hmid : Midway T r k .throttlingWrapper 1 true (-1) := hf
    by_cases hn : n = k
    . subst hn
      simp [hmid.mem, hmid.tbl, Hooking]
    . exact hne hmid hn
  | _ =>
    have hr : Consistent T r := hf
    rw [(hr.settled n).mem_iff]
    simp [Hooking]

theorem Deregister.Facts.mem_iff {f : Deregister K} (hf : f.Facts T r)
    : n ∈ r.numbers ↔ r.hackedSyscallTbl n = .throttlingWrapper ∨ f.Unhooking n := by
  obtain ⟨k, pc⟩ := f
  have hne : ∀ {h : Handler} {v d : Int} {m : Bool}, Midway T r k h v m d → n ≠ k →
      (n ∈ r.numbers ↔ r.hackedSyscallTbl n = .throttlingWrapper
        ∨ Deregister.Unhooking n ⟨k, pc⟩) := by
    intro h v d m hmid hne
    rw [hmid.mem_iff_of_ne hne, Unhooking]
    simp [hne.symm]
  cases pc with
  | table x =>
    have hmid : Midway T r k .throttlingWrapper 1 true 0 := hf.2
    by_cases hn : n = k
    . subst hn
      simp [hmid.mem, hmid.tbl]
    . exact hne hmid hn
  | flag x =>
    have hmid : Midway T r k (T.entry k) 1 true 0 := hf.2
    by_cases hn : n = k
    . subst hn
      simp [hmid.mem, Unhooking]
    . exact hne hmid hn
  | hash x =>
    have hmid : Midway T r k (T.entry k) 0 true 0 := hf.2
    by_cases hn : n = k
    . subst hn
      simp [hmid.mem, Unhooking]
    . exact hne hmid hn
  | count x =>
    have hmid : Midway T r k (T.entry k) 0 false 1 := hf
    by_cases hn : n = k
    . subst hn
      simp [hmid.mem, hmid.tbl, T.original, Unhooking]
    . exact hne hmid hn
  | _ =>
    have hr : Consistent T r := hf
    rw [(hr.settled n).mem_iff]
    simp [Unhooking]

end Facts

/-- A registration of `n` is between its write to the table and `hash_add_rcu`. -/
def Registering (n : Fin K.nrSyscalls) (c : Cfg K) : Prop :=
  ∃ j f, c.locals j = .register f ∧ f.Hooking n

/--
The table no longer leads to the wrapper, and no deregistration of `n` is before `hash_del_rcu`.
-/
def Deregistered (n : Fin K.nrSyscalls) (c : Cfg K) : Prop :=
  c.shared.st.sys.hackedSyscallTbl n ≠ .throttlingWrapper
    ∧ ¬∃ j f, c.locals j = .deregister f ∧ f.Unhooking n

/-- The node of `n` is there to be found outside the two windows, and only there. -/
theorem isSome_lookup_iff {c : Cfg K} (h : Reachable K T c) (n : Fin K.nrSyscalls)
    : (c.shared.st.sys.lookup n).isSome ↔ ¬Registering n c ∧ ¬Deregistered n c := by
  obtain ⟨hguarded, hphase⟩ := outline_of_reachable h
  have hheld := LockHeld.of_reachable h
  have hreg : ∀ j f, c.locals j = .register f → f.Hooking n → c.shared.writeLock = some j := by
    intro j f hj hf
    apply lock_of_holds h
    rw [hj]
    exact hf.holds
  have hdereg : ∀ j f, c.locals j = .deregister f → f.Unhooking n →
      c.shared.writeLock = some j := by
    intro j f hj hf
    apply lock_of_holds h
    rw [hj]
    exact hf.holds
  rw [hguarded.sound.toLinked.isSome_lookup]
  unfold Registering Deregistered
  cases hlock : c.shared.writeLock with
  | none =>
    rw [((hguarded.free hlock).settled n).mem_iff]
    simp only [hlock, reduceCtorEq, imp_false] at hreg hdereg
    grind
  | some j =>
    have hholds := hheld j hlock
    have hp : (c.locals j).Phase T j c.shared := hphase j
    have hfacts := (hp hholds).2
    cases hj : c.locals j with
    | register f =>
      rw [hj] at hfacts
      rw [Register.Facts.mem_iff (n := n) hfacts]
      grind
    | deregister f =>
      rw [hj] at hfacts
      rw [Deregister.Facts.mem_iff (n := n) hfacts]
      grind
    | _ =>
      rw [hj] at hholds
      cases hholds

def Updates (n : Fin K.nrSyscalls) (c : Cfg K) (l : Lbl K) : Prop :=
  ∃ j ch, l = .run j ch ∧ ((∃ f, c.locals j = .register f) ∨ (∃ f, c.locals j = .deregister f)
    ∨ c.locals j = .idle ∧ ∃ env, ch = .start (.register env (n : Nat)))

section Updates

variable {n : Fin K.nrSyscalls} {i : Nat} {c c' : Cfg K}

structure Aside (i : Nat) (c c' : Cfg K) : Prop where
  caller : c'.locals i = c.locals i
  mon : c'.shared.st.mon = c.shared.st.mon
  handler : c'.shared.handler = c.shared.handler

theorem Aside.refl (i : Nat) (c : Cfg K) : Aside i c c :=
  ⟨rfl, rfl, rfl⟩

theorem Aside.trans {c'' : Cfg K} (h : Aside i c c') (h' : Aside i c' c'') : Aside i c c'' :=
  ⟨h'.caller.trans h.caller, h'.mon.trans h.mon, h'.handler.trans h.handler⟩

theorem Updates.aside {l : Lbl K} (hl : Updates n c l) (hi : ∃ w, c.locals i = .wrapper w)
    (hs : (throttling K).step c l = some c') : Aside i c c' := by
  obtain ⟨w, hi⟩ := hi
  obtain ⟨j, ch, rfl, hj⟩ := hl
  have hne : i ≠ j := by
    rintro rfl
    simp [hi] at hj
  obtain ⟨s, t, ev, heq, rfl⟩ := System.step_run hs
  have heq : (c.locals j).step j ch c.shared = some (s, t, ev) := heq
  have hcaller : Function.update c.locals j t i = c.locals i := Function.update_of_ne hne ..
  rcases Thread.step_cases heq with ⟨_, _, rfl, _⟩ | ⟨_, _, hw, _⟩ | ⟨_, _, hpc, _⟩ | ⟨_, _, hpc, _⟩
    | ⟨_, _, _, _, h, _⟩ | ⟨_, _, _, _, h, _⟩
  . exact ⟨hcaller, rfl, rfl⟩
  . simp [hw] at hj
  . simp [hpc] at hj
  . simp [hpc] at hj
  . have hframe := (Register.step_frame h).1
    exact ⟨hcaller, hframe.mon, hframe.handler⟩
  . have hframe := (Deregister.step_frame h).1
    exact ⟨hcaller, hframe.mon, hframe.handler⟩

theorem aside_of_updates (hrun : (throttling K).Run (Updates n) c c')
    (hi : ∃ w, c.locals i = .wrapper w) : Aside i c c' := by
  apply hrun.invariant (I := Aside i c) (.refl i c)
  intro c₁ l c₂ h hl hs
  exact h.trans (hl.aside (h.caller ▸ hi) hs)

theorem exists_unlocked (h : Reachable K T c)
    : ∃ c', (throttling K).Run (Updates n) c c' ∧ c'.shared.writeLock = none := by
  cases hlock : c.shared.writeLock with
  | none => exact ⟨c, .refl, hlock⟩
  | some j =>
    induction hleft : (c.locals j).left (c.shared.waitView j) using Nat.strong_induction_on
      generalizing c with
    | _ m ih =>
      have hholds := LockHeld.of_reachable h j hlock
      obtain ⟨ch, c₁, _, hs⟩ := enabled_of_holds hholds
      have hreach := h.step hs
      have hupdates : Updates n c (.run j ch) := by
        refine ⟨j, ch, rfl, ?_⟩
        cases hj : c.locals j with
        | register f => exact .inl ⟨f, rfl⟩
        | deregister f => exact .inr (.inl ⟨f, rfl⟩)
        | _ =>
          rw [hj] at hholds
          cases hholds
      cases hlock₁ : c₁.shared.writeLock with
      | none => exact ⟨c₁, .tail _ .refl hupdates hs, hlock₁⟩
      | some k =>
        obtain ⟨s, t, ev, heq, rfl⟩ := System.step_run hs
        have hk : k = j := by
          rcases Thread.step_lock heq (lock_of_holds h) (fun _ => hholds) hlock₁ with
            ⟨rfl, _⟩ | ⟨hne, hlock'⟩
          . rfl
          . rw [hlock] at hlock'
            cases hlock'
            exact absurd rfl hne
        subst hk
        have hlt : t.left (s.waitView k) < m := by
          rw [← hleft]
          exact Thread.step_left heq
        obtain ⟨c', hrun, hend⟩ := ih _ hlt hreach hlock₁ (by simp)
        exact ⟨c', .head _ hupdates hs hrun, hend⟩

theorem exists_registered (h : Reachable K T c) (hlock : c.shared.writeLock = none) (env : Env)
    : ∃ c', (throttling K).Run (Updates n) c c'
        ∧ c'.shared.st = (registerSystemCall env (n : Nat) c.shared.st).2 := by
  obtain ⟨k, hk⟩ := exists_idle h
  let c₁ : Cfg K :=
    ⟨c.shared, Function.update c.locals k (Task.register env (n : Nat)).thread, c.trace⟩
  have hs : (throttling K).step c (.run k (.start (.register env (n : Nat)))) = some c₁ := by
    simp only [System.step, throttling, Thread.step, hk]
    rfl
  have hstart : Updates n c (.run k (.start (.register env (n : Nat)))) :=
    ⟨k, _, rfl, .inr (.inr ⟨hk, env, rfl⟩)⟩
  have hshared : c₁.shared = ⟨c.shared.st, none, c.shared.handler, c.shared.sections⟩ := by
    rw [← hlock]
  have hrun := (register_sequential (i := k) env (n : Nat) c.shared.st c.shared.handler
    c.shared.sections c₁.trace).run hshared (Function.update_self ..) rfl
  have hregister : ∀ (c : Cfg K) (l : Lbl K) (c' : Cfg K), (∃ f, c.locals k = .register f) →
      Alone k l → (throttling K).step c l = some c' → ∃ f, c'.locals k = .register f := by
    rintro c l c' ⟨f, hf⟩ ⟨ch, _, rfl⟩ hs
    obtain ⟨s, t, ev, heq, rfl⟩ := System.step_run hs
    have heq : (c.locals k).step k ch c.shared = some (s, t, ev) := heq
    rw [hf, Thread.step, Option.map_eq_some_iff] at heq
    obtain ⟨⟨s', f'⟩, _, hsame⟩ := heq
    cases hsame
    exact ⟨f', Function.update_self ..⟩
  have hrun := hrun.with_invariant (I := fun c => ∃ f, c.locals k = .register f)
    ⟨_, Function.update_self ..⟩ hregister
  have hupdates : ∀ (c : Cfg K) (l : Lbl K), Alone k l ∧ (∃ f, c.locals k = .register f) →
      Updates n c l := by
    rintro c l ⟨⟨ch, _, rfl⟩, hf⟩
    exact ⟨k, ch, rfl, .inl hf⟩
  exact ⟨_, .head _ hstart hs (hrun.mono hupdates), rfl⟩

theorem isSome_lookup_registered {st : State K} (hr : Consistent T st.sys) (n : Fin K.nrSyscalls)
    : ((registerSystemCall Env.sample (n : Nat) st).2.sys.lookup n).isSome := by
  rw [(hr.registerSystemCall Env.sample n).toLinked.isSome_lookup]
  rcases registerSystemCall_cases Env.sample n st with ⟨hfail, _⟩ | ⟨_, _, ha, _, hsys⟩
    | ⟨_, _, _, _, node, stats, hnr, _, hsys⟩
  . rcases hfail with hfail | hfail <;> cases hfail
  . by_contra hout
    rw [hsys, hr.not_mem_numbers_iff] at hout
    exact ha hout
  . rw [hsys]
    simp [hnr]

theorem exists_found (h : Reachable K T c) (n : Fin K.nrSyscalls)
    : ∃ c', (throttling K).Run (Updates n) c c' ∧ (c'.shared.st.sys.lookup n).isSome := by
  obtain ⟨c₁, hrun₁, hlock⟩ := exists_unlocked (n := n) h
  have hreach₁ := reachable_trans h hrun₁.reaches
  have hr := (outline_of_reachable hreach₁).1.free hlock
  -- a registration fails if the node is there already
  obtain ⟨c₂, hrun₂, hst⟩ := exists_registered (n := n) hreach₁ hlock Env.sample
  refine ⟨c₂, hrun₁.trans hrun₂, ?_⟩
  rw [hst]
  exact isSome_lookup_registered hr n

end Updates

end Throttling

import SyscallThrottling.Lemmas.Frame

/-!
This module contains the syscall registry while calls that update it are in progress: `write_lock`
keeps them apart, and what each of them has done so far tells the state of the registry.
-/

namespace Throttling

open Interleaving

variable {K : Platform}

namespace SyscallRegistry

variable {T : SyscallTable K} {r : SyscallRegistry K} {n : Fin K.nrSyscalls} {h : Handler} {v d : Int}
  {m : Bool} {node : HackedSyscall K}

/--
Only `n` is being hooked or unhooked: its entry is `h`, its flag `v`, it has a node if `m`, and the
counter is ahead of the nodes by `d`.
-/
structure Midway (T : SyscallTable K) (r : SyscallRegistry K) (n : Fin K.nrSyscalls) (h : Handler)
    (v : Int) (m : Bool) (d : Int) : Prop extends Linked T r where
  others : ∀ k, k ≠ n → Settled T r k
  tbl : r.hackedSyscallTbl n = h
  flag : r.syscallArray n = v
  mem : n ∈ r.numbers ↔ m = true
  len : r.sysLen = r.numbers.card + d

theorem Consistent.midway_of_unhooked (hr : Consistent T r) (h0 : r.syscallArray n = 0)
    : Midway T r n (T.entry n) 0 false 0 := by
  have hout := hr.not_mem_numbers_iff.mpr h0
  refine ⟨hr.toLinked, fun k _ => hr.settled k, ?_, h0, by simp [hout], by simp [hr.len]⟩
  rcases hr.settled n with ⟨hin, _⟩ | ⟨_, _, htbl⟩
  . exact absurd hin hout
  . exact htbl

theorem Consistent.midway_of_hooked (hr : Consistent T r) (hl : r.lookup n = some node)
    : Midway T r n .throttlingWrapper 1 true 0 := by
  have hin : n ∈ r.numbers := by
    obtain ⟨hmem, hnr⟩ := hr.lookup_eq_some.mp hl
    exact HashTable.mem_keys.mpr ⟨node, hmem, hnr⟩
  rcases hr.settled n with ⟨_, hflag, htbl⟩ | ⟨hout, _⟩
  . exact ⟨hr.toLinked, fun k _ => hr.settled k, htbl, hflag, by simp [hin], by simp [hr.len]⟩
  . exact absurd hin hout

namespace Midway

theorem consistent_of_unhooked (hr : Midway T r n (T.entry n) 0 false 0) : Consistent T r where
  toLinked := hr.toLinked
  settled k := by
    by_cases hk : k = n
    . subst hk
      exact .inr ⟨by simp [hr.mem], hr.flag, hr.tbl⟩
    . exact hr.others k hk
  len := by simpa using hr.len

theorem consistent_of_hooked (hr : Midway T r n .throttlingWrapper 1 true 0) : Consistent T r where
  toLinked := hr.toLinked
  settled k := by
    by_cases hk : k = n
    . subst hk
      exact .inl ⟨by simp [hr.mem], hr.flag, hr.tbl⟩
    . exact hr.others k hk
  len := by simpa using hr.len

theorem setTbl (hr : Midway T r n h v m d) (h' : Handler)
    : Midway T (r.setTbl n h') n h' v m d where
  toLinked := hr.toLinked.setTbl n h'
  others k hk := by simpa [Settled, hk] using hr.others k hk
  tbl := by simp
  flag := hr.flag
  mem := hr.mem
  len := hr.len

theorem setArray (hr : Midway T r n h v m d) (v' : Int)
    : Midway T (r.setArray n v') n h v' m d where
  toLinked := hr.toLinked.setArray n v'
  others k hk := by simpa [Settled, hk] using hr.others k hk
  tbl := hr.tbl
  flag := by simp
  mem := hr.mem
  len := hr.len

theorem addLen (hr : Midway T r n h v m d) (e : Int) : Midway T (r.addLen e) n h v m (d + e) where
  toLinked := hr.toLinked.addLen e
  others := hr.others
  tbl := hr.tbl
  flag := hr.flag
  mem := hr.mem
  len := by
    rw [sysLen_addLen, numbers_addLen, hr.len]
    omega

theorem hashAdd (hr : Midway T r n h v false d) (hn : node.syscallNr = n)
    (horig : node.originalSyscall = T.entry n) (stats : SyscallStats)
    : Midway T (r.hashAdd node stats) n h v true (d - 1) := by
  subst hn
  have hout : node.syscallNr ∉ r.numbers := by simp [hr.mem]
  refine ⟨hr.toLinked.hashAdd hout horig stats, ?_, hr.tbl, hr.flag, by simp, ?_⟩
  . intro k hk
    simpa [Settled, hk] using hr.others k hk
  . have hlen := hr.len
    rw [sysLen_hashAdd, numbers_hashAdd, Finset.card_insert_of_notMem hout, hlen]
    push_cast
    omega

theorem hashDel (hr : Midway T r n h v true d) (hl : r.lookup n = some node)
    : Midway T (r.hashDel node) n h v false (d + 1) := by
  obtain ⟨hmem, hnr⟩ := hr.lookup_eq_some.mp hl
  have hin : n ∈ r.numbers := by simp [hr.mem]
  have hnumbers := hr.toLinked.numbers_hashDel hmem
  rw [hnr] at hnumbers
  refine ⟨hr.toLinked.hashDel node, ?_, hr.tbl, hr.flag, by simp [hnumbers], ?_⟩
  . intro k hk
    simpa [Settled, hk, hnumbers] using hr.others k hk
  . have hpos : 0 < r.numbers.card := Finset.card_pos.mpr ⟨n, hin⟩
    have hlen := hr.len
    rw [sysLen_hashDel, hnumbers, Finset.card_erase_of_mem hin, hlen]
    omega

end Midway

structure Sound (T : SyscallTable K) (r : SyscallRegistry K) : Prop extends Linked T r where
  entries : ∀ k, r.hackedSyscallTbl k = .throttlingWrapper ∨ r.hackedSyscallTbl k = T.entry k

theorem Settled.entry {k : Fin K.nrSyscalls} (hr : Settled T r k)
    : r.hackedSyscallTbl k = .throttlingWrapper ∨ r.hackedSyscallTbl k = T.entry k := by
  rcases hr with ⟨_, _, h⟩ | ⟨_, _, h⟩
  . exact .inl h
  . exact .inr h

theorem Consistent.sound (hr : Consistent T r) : Sound T r :=
  ⟨hr.toLinked, fun k => (hr.settled k).entry⟩

theorem Midway.sound (hr : Midway T r n h v m d) (hh : h = .throttlingWrapper ∨ h = T.entry n)
    : Sound T r := by
  refine ⟨hr.toLinked, fun k => ?_⟩
  by_cases hk : k = n
  . subst hk
    rw [hr.tbl]
    exact hh
  . exact (hr.others k hk).entry

end SyscallRegistry

open SyscallRegistry

def HackedSyscall.For (T : SyscallTable K) (n : Fin K.nrSyscalls) (node : HackedSyscall K) : Prop :=
  node.syscallNr = n ∧ node.originalSyscall = T.entry n

def Register.holds (f : Register K) : Bool :=
  match f.pc with
  | .alloc => false
  | .lock _ _ => false
  | .done _ => false
  | _ => true

def Register.Facts (T : SyscallTable K) (r : SyscallRegistry K) (f : Register K) : Prop :=
  match f.pc with
  | .save _ _ => Consistent T r ∧ r.syscallArray f.safeNr = 0
  | .table node => node.For T f.safeNr ∧ Midway T r f.safeNr (T.entry f.safeNr) 0 false 0
  | .flag node => node.For T f.safeNr ∧ Midway T r f.safeNr .throttlingWrapper 0 false 0
  | .hash node => node.For T f.safeNr ∧ Midway T r f.safeNr .throttlingWrapper 1 false 0
  | .count => Midway T r f.safeNr .throttlingWrapper 1 true (-1)
  | _ => Consistent T r

def Deregister.holds (f : Deregister K) : Bool :=
  match f.pc with
  | .lock => false
  | .synchronize _ => false
  | .free _ _ => false
  | .done _ => false
  | _ => true

def Deregister.Facts (T : SyscallTable K) (r : SyscallRegistry K) (f : Deregister K) : Prop :=
  match f.pc with
  | .table x => r.lookup f.safeNr = some x ∧ Midway T r f.safeNr .throttlingWrapper 1 true 0
  | .flag x => r.lookup f.safeNr = some x ∧ Midway T r f.safeNr (T.entry f.safeNr) 1 true 0
  | .hash x => r.lookup f.safeNr = some x ∧ Midway T r f.safeNr (T.entry f.safeNr) 0 true 0
  | .count _ => Midway T r f.safeNr (T.entry f.safeNr) 0 false 1
  | _ => Consistent T r

namespace Thread

def holds : Thread K → Bool
  | .register f => f.holds
  | .deregister f => f.holds
  | _ => false

def Facts (T : SyscallTable K) (r : SyscallRegistry K) : Thread K → Prop
  | .register f => f.Facts T r
  | .deregister f => f.Facts T r
  | _ => True

def Phase (T : SyscallTable K) (i : Nat) (s : Shared K) (t : Thread K) : Prop :=
  t.holds = true → s.writeLock = some i ∧ t.Facts T s.st.sys

end Thread

structure Guarded (T : SyscallTable K) (s : Shared K) : Prop where
  sound : Sound T s.st.sys
  free : s.writeLock = none → Consistent T s.st.sys

structure SameHooks (s s' : Shared K) : Prop where
  writeLock : s'.writeLock = s.writeLock
  sys : s'.st.sys = { s.st.sys with stats := s'.st.sys.stats }

namespace SameHooks

variable {T : SyscallTable K} {s s' : Shared K} {i : Nat} {t : Thread K}

theorem of_eq (hlock : s'.writeLock = s.writeLock) (hsys : s'.st.sys = s.st.sys)
    : SameHooks s s' where
  writeLock := hlock
  sys := by rw [hsys]

theorem consistent {r : SyscallRegistry K} {stats : Ptr → SyscallStats}
    (hr : Consistent T r) : Consistent T { r with stats := stats } :=
  ⟨⟨hr.wf, hr.original⟩, hr.settled, hr.len⟩

theorem midway {r : SyscallRegistry K} {stats : Ptr → SyscallStats} {n : Fin K.nrSyscalls}
    {h : Handler} {v d : Int} {m : Bool} (hr : Midway T r n h v m d)
    : Midway T { r with stats := stats } n h v m d :=
  ⟨⟨hr.wf, hr.original⟩, hr.others, hr.tbl, hr.flag, hr.mem, hr.len⟩

theorem facts {r : SyscallRegistry K} {stats : Ptr → SyscallStats} (h : t.Facts T r)
    : t.Facts T { r with stats := stats } := by
  cases t with
  | register f =>
    obtain ⟨env, n, pc⟩ := f
    cases pc with
    | save _ _ => exact ⟨consistent h.1, h.2⟩
    | table node => exact ⟨h.1, midway h.2⟩
    | flag node => exact ⟨h.1, midway h.2⟩
    | hash node => exact ⟨h.1, midway h.2⟩
    | count => exact midway (show Midway T r n .throttlingWrapper 1 true (-1) from h)
    | _ => exact consistent (show Consistent T r from h)
  | deregister f =>
    obtain ⟨n, pc⟩ := f
    cases pc with
    | table x => exact ⟨h.1, midway h.2⟩
    | flag x => exact ⟨h.1, midway h.2⟩
    | hash x => exact ⟨h.1, midway h.2⟩
    | count x => exact midway (show Midway T r n (T.entry n) 0 false 1 from h)
    | _ => exact consistent (show Consistent T r from h)
  | _ => trivial

theorem guarded (h : SameHooks s s') (hg : Guarded T s) : Guarded T s' := by
  refine ⟨?_, ?_⟩
  . rw [h.sys]
    exact ⟨⟨hg.sound.wf, hg.sound.original⟩, hg.sound.entries⟩
  . rw [h.writeLock, h.sys]
    exact fun hfree => consistent (hg.free hfree)

theorem phase (h : SameHooks s s') (hp : t.Phase T i s) : t.Phase T i s' := by
  intro ht
  obtain ⟨hlock, hfacts⟩ := hp ht
  rw [h.writeLock, h.sys]
  exact ⟨hlock, facts hfacts⟩

end SameHooks

section Steps

variable {T : SyscallTable K} {i : Nat} {s s' : Shared K}

theorem guarded_of_owner (hlock : s.writeLock = some i) (hr : Sound T s.st.sys) : Guarded T s where
  sound := hr
  free hnone := by simp [hlock] at hnone

theorem guarded_of_consistent (hr : Consistent T s.st.sys) : Guarded T s where
  sound := hr.sound
  free _ := hr

theorem Register.step_other {f f' : Register K} (hp : Thread.Phase T i s (.register f))
    (hs : f.step i s = some (s', f')) {j : Nat} (hne : j ≠ i)
    : SameHooks s s' ∨ s.writeLock ≠ some j := by
  have hother : f.holds = true → s.writeLock ≠ some j := by
    intro hf
    rw [(hp hf).1]
    simpa using Ne.symm hne
  -- a step outside the critical section leaves the registry alone, or takes the lock
  obtain ⟨env, n, pc⟩ := f
  cases pc with
  | alloc =>
    left
    simp only [step] at hs
    repeat' split at hs
    all_goals
      cases hs
      exact .of_eq rfl rfl
  | lock stats newHack =>
    right
    simp only [step] at hs
    split at hs
    . next hfree => simp [hfree]
    . contradiction
  | done ret => cases hs
  | _ => exact .inr (hother rfl)

theorem Deregister.step_other {f f' : Deregister K} (hp : Thread.Phase T i s (.deregister f))
    (hs : f.step i s = some (s', f')) {j : Nat} (hne : j ≠ i)
    : SameHooks s s' ∨ s.writeLock ≠ some j := by
  have hother : f.holds = true → s.writeLock ≠ some j := by
    intro hf
    rw [(hp hf).1]
    simpa using Ne.symm hne
  obtain ⟨n, pc⟩ := f
  cases pc with
  | lock =>
    right
    simp only [step] at hs
    split at hs
    . next hfree => simp [hfree]
    . contradiction
  | synchronize x =>
    cases hs
    exact .inl (.of_eq rfl rfl)
  | free x waitFor =>
    simp only [step] at hs
    split at hs
    . cases hs
      exact .inl (.of_eq rfl rfl)
    . contradiction
  | done ret => cases hs
  | _ => exact .inr (hother rfl)

theorem Register.step_phase {f f' : Register K} (hg : Guarded T s)
    (hp : Thread.Phase T i s (.register f)) (hs : f.step i s = some (s', f'))
    : Guarded T s' ∧ Thread.Phase T i s' (.register f') := by
  obtain ⟨env, n, pc⟩ := f
  cases pc with
  | alloc =>
    simp only [step] at hs
    repeat' split at hs
    all_goals
      cases hs
      exact ⟨SameHooks.guarded (s := s) (.of_eq rfl rfl) hg, nofun⟩
  | lock stats newHack =>
    simp only [step] at hs
    split at hs
    . next hfree =>
      cases hs
      have hr := hg.free hfree
      exact ⟨guarded_of_consistent hr, fun _ => ⟨rfl, hr⟩⟩
    . contradiction
  | check stats newHack =>
    obtain ⟨hlock, hr⟩ := hp rfl
    have hr : Consistent T s.st.sys := hr
    simp only [step] at hs
    split at hs
    . cases hs
      exact ⟨guarded_of_consistent hr, fun _ => ⟨hlock, hr⟩⟩
    . next h0 =>
      cases hs
      exact ⟨guarded_of_consistent hr, fun _ => ⟨hlock, hr, not_not.mp h0⟩⟩
  | present stats newHack =>
    obtain ⟨_, hr⟩ := hp rfl
    have hr : Consistent T s.st.sys := hr
    cases hs
    exact ⟨guarded_of_consistent hr, nofun⟩
  | save stats newHack =>
    obtain ⟨hlock, hr, h0⟩ := hp rfl
    cases hs
    have hmid := hr.midway_of_unhooked h0
    exact ⟨guarded_of_consistent hr, fun _ => ⟨hlock, ⟨rfl, hmid.tbl⟩, hmid⟩⟩
  | table node =>
    obtain ⟨hlock, hnode, hmid⟩ := hp rfl
    cases hs
    have hmid := hmid.setTbl .throttlingWrapper
    exact ⟨guarded_of_owner hlock (hmid.sound (.inl rfl)), fun _ => ⟨hlock, hnode, hmid⟩⟩
  | flag node =>
    obtain ⟨hlock, hnode, hmid⟩ := hp rfl
    cases hs
    have hmid := hmid.setArray 1
    exact ⟨guarded_of_owner hlock (hmid.sound (.inl rfl)), fun _ => ⟨hlock, hnode, hmid⟩⟩
  | hash node =>
    obtain ⟨hlock, hnode, hmid⟩ := hp rfl
    cases hs
    have hmid := hmid.hashAdd hnode.1 hnode.2 (freshStats env.junk.stats n)
    exact ⟨guarded_of_owner hlock (hmid.sound (.inl rfl)), fun _ => ⟨hlock, hmid⟩⟩
  | count =>
    obtain ⟨hlock, hmid⟩ := hp rfl
    cases hs
    have hr := (Midway.addLen hmid 1).consistent_of_hooked
    exact ⟨guarded_of_consistent hr, fun _ => ⟨hlock, hr⟩⟩
  | unlock =>
    obtain ⟨_, hr⟩ := hp rfl
    have hr : Consistent T s.st.sys := hr
    cases hs
    exact ⟨guarded_of_consistent hr, nofun⟩
  | done ret => cases hs

theorem Deregister.step_phase {f f' : Deregister K} (hg : Guarded T s)
    (hp : Thread.Phase T i s (.deregister f)) (hs : f.step i s = some (s', f'))
    : Guarded T s' ∧ Thread.Phase T i s' (.deregister f') := by
  obtain ⟨n, pc⟩ := f
  cases pc with
  | lock =>
    simp only [step] at hs
    split at hs
    . next hfree =>
      cases hs
      have hr := hg.free hfree
      exact ⟨guarded_of_consistent hr, fun _ => ⟨rfl, hr⟩⟩
    . contradiction
  | check =>
    obtain ⟨hlock, hr⟩ := hp rfl
    have hr : Consistent T s.st.sys := hr
    simp only [step] at hs
    split at hs
    all_goals
      cases hs
      exact ⟨guarded_of_consistent hr, fun _ => ⟨hlock, hr⟩⟩
  | find =>
    obtain ⟨hlock, hr⟩ := hp rfl
    have hr : Consistent T s.st.sys := hr
    simp only [step] at hs
    split at hs
    . cases hs
      exact ⟨guarded_of_consistent hr, fun _ => ⟨hlock, hr⟩⟩
    . next x hl =>
      cases hs
      exact ⟨guarded_of_consistent hr, fun _ => ⟨hlock, hl, hr.midway_of_hooked hl⟩⟩
  | fail ret =>
    obtain ⟨_, hr⟩ := hp rfl
    have hr : Consistent T s.st.sys := hr
    cases hs
    exact ⟨guarded_of_consistent hr, nofun⟩
  | table x =>
    obtain ⟨hlock, hl, hmid⟩ := hp rfl
    cases hs
    have horig := hmid.toLinked.lookup_original hl
    have hmid' : Midway T (s.st.sys.setTbl n x.originalSyscall) n (T.entry n) 1 true 0 := by
      have := hmid.setTbl x.originalSyscall
      rwa [horig] at this ⊢
    exact ⟨guarded_of_owner hlock (hmid'.sound (.inr rfl)), fun _ => ⟨hlock, hl, hmid'⟩⟩
  | flag x =>
    obtain ⟨hlock, hl, hmid⟩ := hp rfl
    cases hs
    have hmid' := hmid.setArray 0
    exact ⟨guarded_of_owner hlock (hmid'.sound (.inr rfl)), fun _ => ⟨hlock, hl, hmid'⟩⟩
  | hash x =>
    obtain ⟨hlock, hl, hmid⟩ := hp rfl
    cases hs
    have hmid' := hmid.hashDel hl
    exact ⟨guarded_of_owner hlock (hmid'.sound (.inr rfl)), fun _ => ⟨hlock, hmid'⟩⟩
  | count x =>
    obtain ⟨hlock, hmid⟩ := hp rfl
    cases hs
    have hr := (Midway.addLen hmid (-1)).consistent_of_unhooked
    exact ⟨guarded_of_consistent hr, fun _ => ⟨hlock, hr⟩⟩
  | unlock x =>
    obtain ⟨_, hr⟩ := hp rfl
    have hr : Consistent T s.st.sys := hr
    cases hs
    exact ⟨guarded_of_consistent hr, nofun⟩
  | synchronize x =>
    cases hs
    exact ⟨hg, nofun⟩
  | free x waitFor =>
    simp only [step] at hs
    split at hs
    . cases hs
      exact ⟨SameHooks.guarded (s := s) (.of_eq rfl rfl) hg, nofun⟩
    . contradiction
  | done ret => cases hs

end Steps

theorem Shared.sameHooks {s s' : Shared K} {e : EnvStep} {ev : List (Event K)}
    (h : s.envStep e = some (s', ev)) : SameHooks s s' :=
  .of_eq (envStep_sys h).1 (envStep_sys h).2

theorem SwitchFrame.sameHooks {s s' : Shared K} (h : SwitchFrame s s') : SameHooks s s' := by
  rw [h.shared]
  exact .of_eq rfl rfl

def hooksOutline (T : SyscallTable K) : System.Outline (throttling K) (fun _ _ => True) where
  shared s _ := Guarded T s
  thread i s _ t := t.Phase T i s
  env_ok := by
    intro c e s ev _ hg hs
    have hsame := Shared.sameHooks hs
    exact ⟨hsame.guarded hg, fun j t hp => hsame.phase hp⟩
  thread_ok := by
    intro c i ch s t ev _ hg hp hs
    have hother : SameHooks c.shared s → Guarded T s
        ∧ ∀ j t, j ≠ i → Thread.Phase T j c.shared t → Thread.Phase T j s t :=
      fun hsame => ⟨hsame.guarded hg, fun j t _ hp => hsame.phase hp⟩
    have howner : (∀ j, j ≠ i → SameHooks c.shared s ∨ c.shared.writeLock ≠ some j) →
        ∀ j t, j ≠ i → Thread.Phase T j c.shared t → Thread.Phase T j s t := by
      intro h j t hne hp
      rcases h j hne with hsame | hlock
      . exact hsame.phase hp
      . exact fun ht => absurd (hp ht).1 hlock
    rcases Thread.step_cases hs with ⟨_, _, rfl, task, _, rfl⟩ | ⟨w, w', _, rfl, h⟩
      | ⟨_, _, _, rfl, h, _⟩ | ⟨_, _, _, rfl, h, _⟩ | ⟨f, f', hf, rfl, h, _⟩
      | ⟨f, f', hf, rfl, h, _⟩
    . refine ⟨hg, ?_, fun j t _ hp => hp⟩
      cases task <;> exact nofun
    . have hframe := (Wrapper.step_spec h).1
      obtain ⟨hg', hj⟩ := hother ⟨hframe.writeLock, hframe.sys⟩
      exact ⟨hg', nofun, hj⟩
    . obtain ⟨hg', hj⟩ := hother (SwitchOnPc.step_frame h).sameHooks
      exact ⟨hg', nofun, hj⟩
    . obtain ⟨hg', hj⟩ := hother (SwitchOffPc.step_frame h).sameHooks
      exact ⟨hg', nofun, hj⟩
    . rw [hf] at hp
      obtain ⟨hg', hp'⟩ := Register.step_phase hg hp h
      exact ⟨hg', hp', howner fun j hne => Register.step_other hp h hne⟩
    . rw [hf] at hp
      obtain ⟨hg', hp'⟩ := Deregister.step_phase hg hp h
      exact ⟨hg', hp', howner fun j hne => Deregister.step_other hp h hne⟩

theorem outline_of_reachable {T : SyscallTable K} {c : Cfg K} (h : Reachable K T c)
    : (hooksOutline T).Holds c := by
  obtain ⟨stats, now, h⟩ := h
  apply (hooksOutline T).holds_of_run h
  exact ⟨guarded_of_consistent (.initial T stats now), fun _ => nofun⟩

theorem lock_of_holds {T : SyscallTable K} {c : Cfg K} (h : Reachable K T c) {i : Nat}
    (hi : (c.locals i).holds = true) : c.shared.writeLock = some i := by
  have hphase : (c.locals i).Phase T i c.shared := (outline_of_reachable h).2 i
  exact (hphase hi).1

theorem eq_of_holds {T : SyscallTable K} {c : Cfg K} (h : Reachable K T c) {i j : Nat}
    (hi : (c.locals i).holds = true) (hj : (c.locals j).holds = true) : i = j :=
  Option.some.inj ((lock_of_holds h hi).symm.trans (lock_of_holds h hj))

theorem sound_of_reachable {T : SyscallTable K} {c : Cfg K} (h : Reachable K T c)
    : Sound T c.shared.st.sys :=
  (outline_of_reachable h).1.sound

end Throttling

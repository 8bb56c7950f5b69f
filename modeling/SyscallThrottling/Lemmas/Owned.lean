import SyscallThrottling.Impl.Reclaim
import SyscallThrottling.Lemmas.Ioctl

/-!
This module contains the objects that the registries own: what a registration allocates, and what a
deregistration unlinks and frees.
-/

namespace Throttling

variable {K : Platform}

namespace Heap

structure WellFormed (h : Heap) : Prop where
  fresh : ∀ p ∈ h.live, p < h.brk
  nodup : h.live.Nodup

/-- `h'` has the live objects of `h`, and the new objects `ps`. -/
structure Extends (h h' : Heap) (ps : List Ptr) : Prop where
  live : h'.live = ps ++ h.live
  nodup : ps.Nodup
  fresh : ∀ p ∈ ps, h.brk ≤ p ∧ p < h'.brk
  le : h.brk ≤ h'.brk

variable {h h' g : Heap} {ps : List Ptr}

theorem Extends.refl (h : Heap) : Extends h h [] where
  live := rfl
  nodup := .nil
  fresh := by simp
  le := le_rfl

theorem Extends.alloc (hext : Extends g h ps)
    : Extends g { brk := h.brk + 1, live := h.brk :: h.live } (h.brk :: ps) where
  live := by rw [hext.live, List.cons_append]
  nodup := by
    rw [List.nodup_cons]
    exact ⟨fun hmem => lt_irrefl _ (hext.fresh _ hmem).2, hext.nodup⟩
  fresh := by
    intro p hp
    rcases List.mem_cons.mp hp with rfl | hp
    . exact ⟨hext.le, Nat.lt_succ_self _⟩
    . have hp := hext.fresh p hp
      exact ⟨hp.1, hp.2.trans (Nat.lt_succ_self _)⟩
  le := hext.le.trans (Nat.le_succ _)

theorem Extends.kfree (hext : Extends g h ps) {p : Ptr} (hp : p ∈ ps)
    : Extends g (h.kfree p) (ps.erase p) where
  live := by rw [Heap.kfree, hext.live, List.erase_append_left _ hp]
  nodup := hext.nodup.erase p
  fresh q hq := hext.fresh q (List.mem_of_mem_erase hq)
  le := hext.le

theorem Extends.kfree_head {p : Ptr} (hext : Extends g h (p :: ps)) : Extends g (h.kfree p) ps := by
  simpa using hext.kfree List.mem_cons_self

theorem WellFormed.extends (hwf : h.WellFormed) (hext : Extends h h' ps) : h'.WellFormed where
  fresh := by
    rw [hext.live]
    intro p hp
    rcases List.mem_append.mp hp with hp | hp
    . exact (hext.fresh p hp).2
    . exact (hwf.fresh p hp).trans_le hext.le
  nodup := by
    rw [hext.live, List.nodup_append']
    refine ⟨hext.nodup, hwf.nodup, fun p hp hp' => ?_⟩
    exact not_lt_of_ge (hext.fresh p hp).1 (hwf.fresh p hp')

theorem WellFormed.kfree (hwf : h.WellFormed) (p : Ptr) : (h.kfree p).WellFormed where
  fresh q hq := hwf.fresh q (List.mem_of_mem_erase hq)
  nodup := hwf.nodup.erase p

theorem WellFormed.foldl_kfree (hwf : h.WellFormed) (ps : List Ptr)
    : (ps.foldl Heap.kfree h).WellFormed := by
  induction ps generalizing h with
  | nil => exact hwf
  | cons p ps ih => exact ih (hwf.kfree p)

theorem brk_foldl_kfree (h : Heap) (ps : List Ptr) : (ps.foldl Heap.kfree h).brk = h.brk := by
  induction ps generalizing h with
  | nil => rfl
  | cons p ps ih => exact ih (h.kfree p)

theorem mem_foldl_kfree {p : Ptr} (hp : p ∈ h.live) (hnot : p ∉ ps)
    : p ∈ (ps.foldl Heap.kfree h).live := by
  induction ps generalizing h with
  | nil => exact hp
  | cons q ps ih =>
    rw [List.mem_cons, not_or] at hnot
    exact ih ((List.mem_erase_of_ne hnot.1).mpr hp) hnot.2

theorem live_foldl_kfree {l : List Ptr} (hlive : h.live.Perm (ps ++ l))
    : (ps.foldl Heap.kfree h).live.Perm l := by
  induction ps generalizing h with
  | nil => exact hlive
  | cons p ps ih =>
    apply ih
    simpa [Heap.kfree] using hlive.erase p

theorem kmalloc_cases (h : Heap) (ok : Bool) (size : Nat) (h0 : size ≠ 0) (h1 : size < 2 ^ 63)
    : (ok = false ∧ h.kmalloc ok size = (none, h))
      ∨ (ok = true ∧ ∃ h', h.kmalloc ok size = (some h.brk, h')
        ∧ ∀ {g : Heap} {ps : List Ptr}, Extends g h ps → Extends g h' (h.brk :: ps)) := by
  rw [kmalloc_eq h ok h0 h1]
  cases ok with
  | false => exact .inl ⟨rfl, rfl⟩
  | true => exact .inr ⟨rfl, _, rfl, fun hext => hext.alloc⟩

end Heap

open Heap

/-- The objects of the registered entities: a system call has its node and its statistics. -/
def State.owned (s : State K) : List Ptr :=
  s.sys.hackedSyscallHash.toList.flatMap (fun x => [x.addr, x.stats])
    ++ (s.uids.uidHash.toList.map (fun x => x.addr)
      ++ s.progs.progHash.toList.map (fun x => x.addr))

structure Gains (s s' : State K) (ps : List Ptr) : Prop where
  heap : Extends s.heap s'.heap ps
  owned : s'.owned.Perm (ps ++ s.owned)

structure Loses (s s' : State K) (ps : List Ptr) : Prop where
  heap : s'.heap = ps.foldl Heap.kfree s.heap
  owned : s.owned.Perm (ps ++ s'.owned)

theorem Gains.refl {s s' : State K} (hheap : Extends s.heap s'.heap [])
    (howned : s'.owned = s.owned)
    : Gains s s' [] where
  heap := hheap
  owned := by rw [howned, List.nil_append]

theorem Loses.refl (s : State K) : Loses s s [] where
  heap := rfl
  owned := .refl _

namespace State

variable {s s' : State K}

theorem owned_sys (l : List (HackedSyscall K))
    (h : s'.sys.hackedSyscallHash.toList.Perm (l ++ s.sys.hackedSyscallHash.toList))
    (huids : s'.uids = s.uids) (hprogs : s'.progs = s.progs)
    : s'.owned.Perm (l.flatMap (fun x => [x.addr, x.stats]) ++ s.owned) := by
  have hperm := h.flatMap_right fun x => [x.addr, x.stats]
  rw [List.flatMap_append] at hperm
  simp only [owned, huids, hprogs]
  rw [← List.append_assoc (l.flatMap _)]
  exact hperm.append_right _

theorem owned_uids (l : List RegisteredUid)
    (h : s'.uids.uidHash.toList.Perm (l ++ s.uids.uidHash.toList))
    (hsys : s'.sys = s.sys) (hprogs : s'.progs = s.progs)
    : s'.owned.Perm (l.map (fun x => x.addr) ++ s.owned) := by
  have hperm := h.map fun x => x.addr
  rw [List.map_append] at hperm
  simp only [owned, hsys, hprogs]
  refine ((hperm.append_right _).append_left _).trans ?_
  rw [List.append_assoc]
  exact List.perm_append_comm_assoc ..

theorem owned_progs (l : List RegisteredProg)
    (h : s'.progs.progHash.toList.Perm (l ++ s.progs.progHash.toList))
    (hsys : s'.sys = s.sys) (huids : s'.uids = s.uids)
    : s'.owned.Perm (l.map (fun x => x.addr) ++ s.owned) := by
  have hperm := h.map fun x => x.addr
  rw [List.map_append] at hperm
  simp only [owned, hsys, huids]
  refine ((hperm.append_left _).append_left _).trans ?_
  refine ((List.perm_append_comm_assoc ..).append_left _).trans ?_
  exact List.perm_append_comm_assoc ..

end State

section Registration

variable (env : Env)

theorem registerSystemCall_gains (n : Fin K.nrSyscalls) (s : State K)
    : ∃ ps, Gains s (registerSystemCall env (n : Nat) s).2 ps := by
  unfold registerSystemCall
  rcases s.heap.kmalloc_cases (env.kmalloc 0 40) 40 (by decide) (by decide) with
    ⟨_, heq⟩ | ⟨_, heap, heq, hext⟩
  . rw [heq]
    exact ⟨[], .refl (.refl _) rfl⟩
  . rw [heq]
    dsimp only
    rcases heap.kmalloc_cases (env.kmalloc 1 40) 40 (by decide) (by decide) with
      ⟨_, heq'⟩ | ⟨_, heap', heq', hext'⟩
    . rw [heq']
      exact ⟨[], .refl (hext (.refl _)).kfree_head rfl⟩
    . rw [heq', arrayIndexNospec_coe]
      have hboth := hext' (hext (.refl _))
      dsimp only
      split
      . refine ⟨[], .refl ?_ rfl⟩
        have hne : heap.brk ≠ s.heap.brk := by simpa using hboth.nodup
        have hfree := hboth.kfree (p := s.heap.brk) (by simp)
        rw [List.erase_cons_tail (by simpa using hne), List.erase_cons_head] at hfree
        exact hfree.kfree_head
      . refine ⟨_, hboth, ?_⟩
        exact State.owned_sys (s := s) [⟨heap.brk, n, s.sys.hackedSyscallTbl n, s.heap.brk⟩]
          (HashTable.perm_toList_add ..) rfl rfl

theorem registerUserId_gains (uid : UInt32) (s : State K)
    : ∃ ps, Gains s (registerUserId env uid s).2 ps := by
  unfold registerUserId
  rcases s.heap.kmalloc_cases (env.kmalloc 0 24) 24 (by decide) (by decide) with
    ⟨_, heq⟩ | ⟨_, heap, heq, hext⟩
  . rw [heq]
    exact ⟨[], .refl (.refl _) rfl⟩
  . rw [heq]
    dsimp only
    split
    . exact ⟨[], .refl (hext (.refl _)).kfree_head rfl⟩
    . refine ⟨_, hext (.refl _), ?_⟩
      exact State.owned_uids (s := s) [⟨s.heap.brk, uid⟩] (HashTable.perm_toList_add ..) rfl rfl

theorem registerProgName_gains (name : Comm) (s : State K)
    : ∃ ps, Gains s (registerProgName env name s).2 ps := by
  unfold registerProgName
  rcases s.heap.kmalloc_cases (env.kmalloc 0 32) 32 (by decide) (by decide) with
    ⟨_, heq⟩ | ⟨_, heap, heq, hext⟩
  . rw [heq]
    exact ⟨[], .refl (.refl _) rfl⟩
  . rw [heq]
    dsimp only
    split
    . exact ⟨[], .refl (hext (.refl _)).kfree_head rfl⟩
    . refine ⟨_, hext (.refl _), ?_⟩
      exact State.owned_progs (s := s) [⟨s.heap.brk, Comm.strncpy name⟩]
        (HashTable.perm_toList_add ..) rfl rfl

theorem Registration.gains (r : Registration K) (s : State K) : ∃ ps, Gains s (r.apply s) ps := by
  cases r with
  | syscall env n => exact registerSystemCall_gains env n s
  | uid env userId => exact registerUserId_gains env userId s
  | prog env progName => exact registerProgName_gains env progName s

end Registration

section Removal

variable {s s' : State K} {ps : List Ptr}

theorem State.nodup_tables (h : s.owned.Nodup)
    : s.sys.hackedSyscallHash.toList.Nodup ∧ s.uids.uidHash.toList.Nodup
      ∧ s.progs.progHash.toList.Nodup := by
  rw [owned, List.nodup_append'] at h
  obtain ⟨hsys, h, _⟩ := h
  rw [List.nodup_append'] at h
  refine ⟨?_, h.1.of_map _, h.2.1.of_map _⟩
  have hperm := List.flatMap_append_perm s.sys.hackedSyscallHash.toList (fun x => [x.addr])
    (fun x => [x.stats])
  have haddr := (List.nodup_append'.mp (hperm.nodup_iff.mpr hsys)).1
  rw [← List.map_eq_flatMap] at haddr
  exact haddr.of_map _

theorem State.unlink_sys (h : s.owned.Nodup) {entry : HackedSyscall K}
    (hmem : entry ∈ s.sys.hackedSyscallHash.toList) {sys : SyscallRegistry K}
    (hsys : sys.hackedSyscallHash = s.sys.hackedSyscallHash.del entry)
    : s.owned.Perm ([entry.stats, entry.addr] ++ ({ s with sys } : State K).owned) := by
  have hperm : s.owned.Perm ([entry.addr, entry.stats] ++ ({ s with sys } : State K).owned) :=
    State.owned_sys [entry] (hsys ▸ HashTable.perm_toList_del (nodup_tables h).1 hmem) rfl rfl
  exact hperm.trans (.swap ..)

theorem State.unlink_uid (h : s.owned.Nodup) {entry : RegisteredUid}
    (hmem : entry ∈ s.uids.uidHash.toList) {uids : UidRegistry}
    (huids : uids.uidHash = s.uids.uidHash.del entry)
    : s.owned.Perm ([entry.addr] ++ ({ s with uids } : State K).owned) :=
  State.owned_uids [entry] (huids ▸ HashTable.perm_toList_del (nodup_tables h).2.1 hmem) rfl rfl

theorem State.unlink_prog (h : s.owned.Nodup) {entry : RegisteredProg}
    (hmem : entry ∈ s.progs.progHash.toList) {progs : ProgRegistry}
    (hprogs : progs.progHash = s.progs.progHash.del entry)
    : s.owned.Perm ([entry.addr] ++ ({ s with progs } : State K).owned) :=
  State.owned_progs [entry] (hprogs ▸ HashTable.perm_toList_del (nodup_tables h).2.2 hmem) rfl rfl

theorem State.unlink_ok (h : s.owned.Nodup) {removal : Removal K}
    (hs : s.unlink removal = .ok (ps, s')) : s'.heap = s.heap ∧ s.owned.Perm (ps ++ s'.owned) := by
  cases removal with
  | syscall sysNum =>
    dsimp only [unlink] at hs
    repeat' split at hs
    all_goals cases hs
    next hl => exact ⟨rfl, unlink_sys h (HashTable.mem_toList_of_find? hl) rfl⟩
  | uid userId =>
    dsimp only [unlink] at hs
    split at hs <;> cases hs
    next hl => exact ⟨rfl, unlink_uid h (HashTable.mem_toList_of_find? hl) rfl⟩
  | prog progName =>
    dsimp only [unlink] at hs
    split at hs <;> cases hs
    next hl => exact ⟨rfl, unlink_prog h (HashTable.mem_toList_of_find? hl) rfl⟩

theorem State.unlinkFirst_some (h : s.owned.Nodup) {kind : Kind} {entry : Ptr}
    (hs : s.unlinkFirst kind = some (entry, ps, s'))
    : s'.heap = s.heap ∧ s.owned.Perm (ps ++ s'.owned) ∧ entry ∈ ps := by
  cases kind <;> obtain ⟨x, hx, hs⟩ := Option.map_eq_some_iff.mp hs <;> cases hs
  . exact ⟨rfl, unlink_sys h (List.mem_of_mem_head? hx) rfl, by simp⟩
  . exact ⟨rfl, unlink_uid h (List.mem_of_mem_head? hx) rfl, by simp⟩
  . exact ⟨rfl, unlink_prog h (List.mem_of_mem_head? hx) rfl, by simp⟩

def Removal.apply (s : State K) : Removal K → Int × State K
  | .syscall sysNum => deregisterSystemCall sysNum s
  | .uid userId => deregisterUserId userId s
  | .prog progName => deregisterProgName progName s

/-- Without readers a deregistration unlinks and frees. -/
theorem Removal.apply_eq (s : State K) (removal : Removal K)
    : removal.apply s
        = match s.unlink removal with
          | .error e => (e, s)
          | .ok (ps, s') => (0, { s' with heap := ps.foldl Heap.kfree s'.heap }) := by
  cases removal with
  | syscall sysNum =>
    dsimp only [apply, deregisterSystemCall, State.unlink]
    split
    . rfl
    . cases s.sys.lookup (arrayIndexNospec K sysNum) <;> rfl
  | uid userId =>
    dsimp only [apply, deregisterUserId, State.unlink]
    cases s.uids.lookup K userId <;> rfl
  | prog progName =>
    dsimp only [apply, deregisterProgName, State.unlink]
    cases s.progs.lookup K (hashValue K progName) progName <;> rfl

theorem Removal.loses (h : s.owned.Nodup) (removal : Removal K)
    : ∃ ps, Loses s (removal.apply s).2 ps := by
  rw [apply_eq]
  split
  . exact ⟨[], .refl s⟩
  . next ps s' hs =>
    obtain ⟨hheap, howned⟩ := State.unlink_ok h hs
    exact ⟨ps, by rw [hheap], howned⟩

end Removal

end Throttling

import SyscallThrottling.Lemmas.Registered
import SyscallThrottling.Lemmas.SyscallRegistry

/-!
This module contains what an ioctl can do to the state of the module, and the invariant of the
registries over sequences of ioctls, ticks of the clock and runs of the timer.
-/

namespace Throttling

open SyscallRegistry

variable {K : Platform}

inductive Effect (env : Env) (s : State K) : State K → Prop where
  | heap (heap : Heap) : Effect env s { s with heap }
  | registerSyscall (n : Fin K.nrSyscalls) : Effect env s (registerSystemCall env (n : Nat) s).2
  | deregisterSyscall (n : Fin K.nrSyscalls) : Effect env s (deregisterSystemCall (n : Nat) s).2
  | registerUid (uid : UInt32) : Effect env s (registerUserId env uid s).2
  | deregisterUid (uid : UInt32) : Effect env s (deregisterUserId uid s).2
  | registerProg (name : List UInt8)
    : Effect env s (registerProgName env (strncpyFromUser name).terminate s).2
  | deregisterProg (name : List UInt8)
    : Effect env s (deregisterProgName (strncpyFromUser name).terminate s).2
  | setMax (newMax : Int) : Effect env s { s with mon := (s.mon.setMaxSyscall newMax).2 }
  | monitorOn : Effect env s { s with mon := (s.mon.switchOnMonitor K).2 }
  | monitorOff : Effect env s { s with mon := s.mon.switchOffMonitor.2 }

theorem Effect.refl {env : Env} {s : State K} : Effect env s s := .heap s.heap

def FetchAll.Accepted (env : Env) (arg : FetchAll) : Prop :=
  env.copyFromUser = true ∧ arg.max ≠ 0 ∧ arg.list ≠ 0

inductive Fetched {α : Type} (env : Env) (arg : FetchAll) (size : Nat → Nat)
    (write : List α → UserWrite) (s : State K)
    : Except Int (Ptr × List α) × State K → IoctlResult K → Prop where
  | refused {res} (h : ¬arg.Accepted env) : Fetched env arg size write s res (.fail EFAULT s)
  | failed {e s'} (h : arg.Accepted env) : Fetched env arg size write s (.error e, s') ⟨e, [], s'⟩
  | empty {buffer s'} (h : arg.Accepted env)
    : Fetched env arg size write s (.ok (buffer, []), s') ⟨0, [], s'⟩
  | cut {buffer l s'} (h : arg.Accepted env) (hl : l ≠ [])
      (h0 : env.copied 0 (size l.length) ≠ size l.length)
    : Fetched env arg size write s (.ok (buffer, l), s')
        ⟨-EFAULT, [(write l).upTo (env.copied 0 (size l.length))],
          { s' with heap := s'.heap.kfree buffer }⟩
  | listed {buffer l s'} (h : arg.Accepted env) (hl : l ≠ [])
      (h0 : env.copied 0 (size l.length) = size l.length) (h1 : env.copied 1 16 < 16)
    : Fetched env arg size write s (.ok (buffer, l), s')
        ⟨-EFAULT, [(write l).upTo (size l.length),
            .torn (.fetchAll { arg with copied := UInt32.ofNat l.length }) (env.copied 1 16)],
          { s' with heap := s'.heap.kfree buffer }⟩
  | written {buffer l s'} (h : arg.Accepted env) (hl : l ≠ [])
      (h0 : env.copied 0 (size l.length) = size l.length) (h1 : env.copied 1 16 = 16)
    : Fetched env arg size write s (.ok (buffer, l), s')
        ⟨0, [(write l).upTo (size l.length),
            .fetchAll { arg with copied := UInt32.ofNat l.length }],
          { s' with heap := s'.heap.kfree buffer }⟩

theorem fetchAll_fetched {α : Type} (env : Env) (arg : FetchAll)
    (getAll : Env → Int → State K → Except Int (Ptr × List α) × State K) (size : Nat → Nat)
    (write : List α → UserWrite) (s : State K)
    : Fetched env arg size write s (getAll env (toInt arg.max.toNat) s)
        (fetchAll env arg getAll size write s) := by
  unfold fetchAll
  generalize getAll env (toInt arg.max.toNat) s = res
  by_cases hin : env.copyFromUser = false
  . rw [if_pos hin]
    exact .refused fun h => by simp [h.1] at hin
  rw [if_neg hin]
  by_cases hzero : arg.max = 0 ∨ arg.list = 0
  . rw [if_pos hzero]
    exact .refused fun h => hzero.elim h.2.1 h.2.2
  rw [if_neg hzero]
  rw [not_or] at hzero
  have h : arg.Accepted env := ⟨eq_true_of_ne_false hin, hzero⟩
  obtain ⟨_ | ⟨buffer, l⟩, s'⟩ := res
  . exact .failed h
  dsimp only
  by_cases hl : l.length = 0
  . rw [if_pos hl]
    obtain rfl := List.eq_nil_of_length_eq_zero hl
    exact .empty h
  rw [if_neg hl]
  have hl : l ≠ [] := fun h => hl (by rw [h, List.length_nil])
  by_cases h0 : env.copied 0 (size l.length) = size l.length
  . rw [if_neg (not_not.mpr h0), h0]
    rcases copyOut_cases env 1 (.fetchAll { arg with copied := UInt32.ofNat l.length })
      { s' with heap := s'.heap.kfree buffer } with ⟨h1, hcopy⟩ | ⟨h1, hcopy⟩
    . rw [hcopy]
      exact .written h hl h0 h1
    . rw [hcopy]
      exact .listed h hl h0 h1
  . rw [if_pos h0]
    exact .cut h hl h0

def SameButHeap (s s' : State K) : Prop :=
  ∃ heap, s' = { s with heap }

namespace SameButHeap

variable {env : Env} {s : State K}

theorem refl (s : State K) : SameButHeap s s :=
  ⟨s.heap, rfl⟩

theorem copyOut (k : Nat) (w : UserWrite) (h : Heap)
    : SameButHeap s (copyOut env k w { s with heap := h }).state :=
  ⟨h, rfl⟩

theorem fetchAll {α : Type} {arg : FetchAll} {size : Nat → Nat} {write : List α → UserWrite}
    {getAll : Env → Int → State K → Except Int (Ptr × List α) × State K}
    (hget : ∀ {inMax res s'}, getAll env inMax s = (res, s') → SameButHeap s s')
    : SameButHeap s (fetchAll env arg getAll size write s).state := by
  have h := fetchAll_fetched env arg getAll size write s
  generalize hres : getAll env (toInt arg.max.toNat) s = res at h
  generalize Throttling.fetchAll env arg getAll size write s = r at h
  cases h with
  | refused => exact refl s
  | failed => exact hget hres
  | empty => exact hget hres
  | _ =>
    obtain ⟨heap, rfl⟩ := hget hres
    exact ⟨_, rfl⟩

end SameButHeap

section Queries

variable {env : Env} {s s' : State K}

theorem getThreadStats_state {type : Int} {res : Except Int (Ptr × ThreadStatsCr)}
    (h : getThreadStats env type s = (res, s')) : SameButHeap s s' := by
  unfold getThreadStats at h
  repeat' split at h
  all_goals
    cases h
    exact ⟨_, rfl⟩

theorem getSyscallStats_state {sysNum : Int} {res : Except Int (Ptr × SyscallCr)}
    (h : getSyscallStats env sysNum s = (res, s')) : SameButHeap s s' := by
  unfold getSyscallStats at h
  dsimp only at h
  repeat' split at h
  all_goals
    cases h
    exact ⟨_, rfl⟩

theorem getAllSyscalls_state {inMax : Int} {res : Except Int (Ptr × List Int)}
    (h : getAllSyscalls env inMax s = (res, s')) : SameButHeap s s' := by
  unfold getAllSyscalls at h
  dsimp only at h
  split at h <;> cases h <;> exact ⟨_, rfl⟩

theorem getAllUids_state {inMax : Int} {res : Except Int (Ptr × List UInt32)}
    (h : getAllUids env inMax s = (res, s')) : SameButHeap s s' := by
  unfold getAllUids at h
  dsimp only at h
  split at h <;> cases h <;> exact ⟨_, rfl⟩

theorem getAllProgs_state {inMax : Int} {res : Except Int (Ptr × List Comm)}
    (h : getAllProgs env inMax s = (res, s')) : SameButHeap s s' := by
  unfold getAllProgs at h
  dsimp only at h
  split at h <;> cases h <;> exact ⟨_, rfl⟩

theorem queryIoctl_sameButHeap {cmd : Cmd} {r : IoctlResult K} (h : queryIoctl env s cmd = some r)
    : SameButHeap s r.state := by
  cases cmd <;> simp only [queryIoctl, Option.some.injEq, reduceCtorEq] at h <;> subst h
  case getThreadStats arg =>
    split
    . exact .refl s
    . split
      . exact .refl s
      . split
        . next hs => exact getThreadStats_state hs
        . next hs =>
          obtain ⟨heap, rfl⟩ := getThreadStats_state hs
          exact .copyOut 0 _ heap
  case getSyscallStats arg =>
    split
    . exact .refl s
    . split
      . exact .refl s
      . split
        . next hs => exact getSyscallStats_state hs
        . next hs =>
          obtain ⟨heap, rfl⟩ := getSyscallStats_state hs
          exact .copyOut 0 _ _
  case getAllSyscalls arg => exact .fetchAll getAllSyscalls_state
  case getAllUids arg => exact .fetchAll getAllUids_state
  case getAllProgs arg => exact .fetchAll getAllProgs_state
  all_goals
    repeat' split
    all_goals exact .refl s

theorem queryIoctl_effect {cmd : Cmd} {r : IoctlResult K} (h : queryIoctl env s cmd = some r)
    : Effect env s r.state := by
  obtain ⟨heap, hs⟩ := queryIoctl_sameButHeap h
  rw [hs]
  exact .heap heap

theorem exists_fin_of_range {n : Int} (h : ¬(n < 0 ∨ n ≥ K.nrSyscalls))
    : ∃ i : Fin K.nrSyscalls, n = ((i : Nat) : Int) :=
  ⟨⟨n.toNat, by omega⟩, by simp; omega⟩

theorem rootIoctl_cases {P : State K → Prop} (cmd : Cmd) (hrefused : P s)
    (hregisterSyscall : ∀ n : Fin K.nrSyscalls, P (registerSystemCall env (n : Nat) s).2)
    (hderegisterSyscall : ∀ n : Fin K.nrSyscalls, P (deregisterSystemCall (n : Nat) s).2)
    (hregisterUid : ∀ uid, P (registerUserId env uid s).2)
    (hderegisterUid : ∀ uid, P (deregisterUserId uid s).2)
    (hregisterProg : ∀ name, P (registerProgName env (strncpyFromUser name).terminate s).2)
    (hderegisterProg : ∀ name, P (deregisterProgName (strncpyFromUser name).terminate s).2)
    (hsetMax : ∀ newMax, P { s with mon := (s.mon.setMaxSyscall newMax).2 })
    (hmonitorOn : P { s with mon := (s.mon.switchOnMonitor K).2 })
    (hmonitorOff : P { s with mon := s.mon.switchOffMonitor.2 })
    : P (rootIoctl env s cmd).state := by
  cases cmd <;> dsimp only [rootIoctl] <;> try exact hrefused
  case registerSyscall arg =>
    split
    . exact hrefused
    . split
      . exact hrefused
      . next h =>
        obtain ⟨n, rfl⟩ := exists_fin_of_range h
        exact hregisterSyscall n
  case deregisterSyscall arg =>
    split
    . exact hrefused
    . split
      . exact hrefused
      . next h =>
        obtain ⟨n, rfl⟩ := exists_fin_of_range h
        exact hderegisterSyscall n
  case registerUid uid =>
    split
    . exact hrefused
    . exact hregisterUid uid
  case registerProg name =>
    split
    . exact hrefused
    . exact hregisterProg name
  case deregisterUid uid =>
    split
    . exact hrefused
    . exact hderegisterUid uid
  case deregisterProg name =>
    split
    . exact hrefused
    . exact hderegisterProg name
  case setMaxCalls newMax =>
    split
    . exact hrefused
    . exact hsetMax newMax
  case monitorOn => exact hmonitorOn
  case monitorOff => exact hmonitorOff

theorem rootIoctl_effect (cmd : Cmd) : Effect env s (rootIoctl env s cmd).state :=
  rootIoctl_cases cmd .refl .registerSyscall .deregisterSyscall .registerUid .deregisterUid
    .registerProg .deregisterProg .setMax .monitorOn .monitorOff

theorem throttlingIoctl_effect (euid : UInt32) (cmd : Cmd)
    : Effect env s (throttlingIoctl env euid cmd s).state := by
  unfold throttlingIoctl
  split
  . next h => exact queryIoctl_effect h
  . split
    . exact .refl
    . exact rootIoctl_effect cmd

end Queries

section Frame

variable (env : Env) (n : Fin K.nrSyscalls) (uid : UInt32) (name : Comm) (s : State K)

theorem registerSystemCall_frame
    : ∃ sys heap, (registerSystemCall env (n : Nat) s).2 = { s with sys, heap } := by
  unfold registerSystemCall
  dsimp only
  repeat' split
  all_goals exact ⟨_, _, rfl⟩

theorem deregisterSystemCall_frame
    : ∃ sys heap, (deregisterSystemCall (n : Nat) s).2 = { s with sys, heap } := by
  unfold deregisterSystemCall
  dsimp only
  repeat' split
  all_goals exact ⟨_, _, rfl⟩

theorem registerUserId_frame
    : ∃ uids heap, (registerUserId env uid s).2 = { s with uids, heap } := by
  unfold registerUserId
  repeat' split
  all_goals exact ⟨_, _, rfl⟩

theorem deregisterUserId_frame
    : ∃ uids heap, (deregisterUserId uid s).2 = { s with uids, heap } := by
  unfold deregisterUserId
  split <;> exact ⟨_, _, rfl⟩

theorem registerProgName_frame
    : ∃ progs heap, (registerProgName env name s).2 = { s with progs, heap } := by
  unfold registerProgName
  dsimp only
  repeat' split
  all_goals exact ⟨_, _, rfl⟩

theorem deregisterProgName_frame
    : ∃ progs heap, (deregisterProgName name s).2 = { s with progs, heap } := by
  unfold deregisterProgName
  split <;> exact ⟨_, _, rfl⟩

end Frame

/-- The registries are what they stand for: hooks, a set of uids and a set of short names. -/
structure State.Invariant (T : SyscallTable K) (s : State K) : Prop where
  sys : Consistent T s.sys
  uids : ∃ S, s.uids.Represents K S
  progs : ∃ S, s.progs.Represents K S ∧ ∀ k ∈ S, progKey k = k

namespace State.Invariant

variable {T : SyscallTable K} {s s' : State K} {env : Env}

theorem loaded (T : SyscallTable K) (stats : Ptr → SyscallStats) (now : Nat)
    : (State.loaded K T stats now).Invariant T where
  sys := .initial T stats now
  uids := ⟨_, (State.represents_loaded T stats now).uids⟩
  progs := ⟨_, (State.represents_loaded T stats now).progs, by simp [Registered.empty]⟩

theorem registerUserId (h : s.Invariant T) (env : Env) (uid : UInt32)
    : ∃ S, (registerUserId env uid s).2.uids.Represents K S := by
  obtain ⟨S, hS⟩ := h.uids
  cases hk : env.kmalloc 0 24 with
  | true => exact ⟨_, (hS.register _ hk).2⟩
  | false =>
    refine ⟨S, ?_⟩
    rw [Throttling.registerUserId, hk]
    exact hS

theorem registerProgName (h : s.Invariant T) (env : Env) (name : List UInt8)
    : ∃ S, (registerProgName env (strncpyFromUser name).terminate s).2.progs.Represents K S
      ∧ ∀ k ∈ S, progKey k = k := by
  obtain ⟨S, hS, hshort⟩ := h.progs
  cases hk : env.kmalloc 0 32 with
  | true =>
    refine ⟨_, (hS.register _ (Comm.str_strncpy_terminate _) hk).2, ?_⟩
    rw [Comm.str_strncpyFromUser]
    intro k hmem
    unfold registerKey at hmem
    split at hmem
    . exact hshort k hmem
    . rcases Finset.mem_insert.mp hmem with rfl | hmem
      . exact CString.truncate_truncate 15 name
      . exact hshort k hmem
  | false =>
    refine ⟨S, ?_, hshort⟩
    rw [Throttling.registerProgName, hk]
    exact hS

theorem deregisterProgName (h : s.Invariant T) (name : Comm)
    : ∃ S, (deregisterProgName name s).2.progs.Represents K S ∧ ∀ k ∈ S, progKey k = k := by
  obtain ⟨S, hS, hshort⟩ := h.progs
  refine ⟨_, (hS.deregister _).2, ?_⟩
  intro k hmem
  unfold deregisterKey at hmem
  split at hmem
  . exact hshort k (Finset.mem_of_mem_erase hmem)
  . exact hshort k hmem

theorem effect (h : s.Invariant T) (he : Effect env s s') : s'.Invariant T := by
  obtain ⟨hsys, huids, hprogs⟩ := h
  cases he with
  | registerSyscall n =>
    have hreg := hsys.registerSystemCall env n
    obtain ⟨_, _, hs⟩ := registerSystemCall_frame env n s
    rw [hs] at hreg ⊢
    exact ⟨hreg, huids, hprogs⟩
  | deregisterSyscall n =>
    have hreg := hsys.deregisterSystemCall n
    obtain ⟨_, _, hs⟩ := deregisterSystemCall_frame n s
    rw [hs] at hreg ⊢
    exact ⟨hreg, huids, hprogs⟩
  | registerUid uid =>
    have hreg := registerUserId ⟨hsys, huids, hprogs⟩ env uid
    obtain ⟨_, _, hs⟩ := registerUserId_frame env uid s
    rw [hs] at hreg ⊢
    exact ⟨hsys, hreg, hprogs⟩
  | deregisterUid uid =>
    obtain ⟨S, hS⟩ := huids
    have hreg := (hS.deregister uid).2
    obtain ⟨_, _, hs⟩ := deregisterUserId_frame uid s
    rw [hs] at hreg ⊢
    exact ⟨hsys, ⟨_, hreg⟩, hprogs⟩
  | registerProg name =>
    have hreg := registerProgName ⟨hsys, huids, hprogs⟩ env name
    obtain ⟨_, _, hs⟩ := registerProgName_frame env (strncpyFromUser name).terminate s
    rw [hs] at hreg ⊢
    exact ⟨hsys, huids, hreg⟩
  | deregisterProg name =>
    have hreg := deregisterProgName ⟨hsys, huids, hprogs⟩ (strncpyFromUser name).terminate
    obtain ⟨_, _, hs⟩ := deregisterProgName_frame (strncpyFromUser name).terminate s
    rw [hs] at hreg ⊢
    exact ⟨hsys, huids, hreg⟩
  | _ => exact ⟨hsys, huids, hprogs⟩

end State.Invariant

inductive Op where
  | ioctl (env : Env) (euid : UInt32) (cmd : Cmd)
  | tick (d : Nat)
  | timer

namespace Op

def apply (s : State K) : Op → State K
  | .ioctl env euid cmd => (throttlingIoctl env euid cmd s).state
  | .tick d => { s with mon := { s.mon with jiffies := s.mon.jiffies + d } }
  | .timer => { s with mon := s.mon.runTimer K }

def run (s : State K) (ops : List Op) : State K :=
  ops.foldl apply s

theorem run_invariant {P : State K → Prop} {s : State K} (h : P s)
    (hstep : ∀ s op, P s → P (apply s op)) (ops : List Op) : P (run s ops) := by
  induction ops generalizing s with
  | nil => exact h
  | cons op ops ih => exact ih (hstep s op h)

theorem invariant_run {T : SyscallTable K} {s : State K} (h : s.Invariant T) (ops : List Op)
    : (run s ops).Invariant T := by
  apply run_invariant h
  intro s op h
  cases op with
  | ioctl env euid cmd => exact h.effect (throttlingIoctl_effect euid cmd)
  | tick d => exact ⟨h.sys, h.uids, h.progs⟩
  | timer => exact ⟨h.sys, h.uids, h.progs⟩

end Op

end Throttling

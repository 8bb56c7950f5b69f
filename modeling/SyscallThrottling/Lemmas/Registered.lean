import SyscallThrottling.Impl.Mod
import SyscallThrottling.Lemmas.Comm
import SyscallThrottling.Lemmas.Copy
import SyscallThrottling.Spec.Registered

/-!
This module contains the refinement of finite sets by the registries of uids and program names.
-/

namespace Throttling

open HashTable

variable {K : Platform}

structure UidRegistry.Represents (K : Platform) (r : UidRegistry) (S : Finset UInt32) : Prop where
  wf : WellFormed RegisteredUid.uid K.hashMin r.uidHash
  keys : keys RegisteredUid.uid r.uidHash = S
  len : r.uidsLen = S.card

def RegisteredProg.key (x : RegisteredProg) : List UInt8 :=
  x.name.str

structure ProgRegistry.Represents (K : Platform) (r : ProgRegistry) (S : Finset (List UInt8))
    : Prop where
  wf : WellFormed RegisteredProg.key (fun k => K.hashMin (K.jhash k)) r.progHash
  keys : keys RegisteredProg.key r.progHash = S
  len : r.progNameLen = S.card

section Uids

variable {s : State K} {S : Finset UInt32} {uid : UInt32} {env : Env}

namespace UidRegistry.Represents

theorem lookup_eq_none {r : UidRegistry} (h : r.Represents K S)
    : r.lookup K uid = none ↔ uid ∉ S := by
  rw [UidRegistry.lookup, h.wf.find?_eq_none, h.keys]

theorem lookup_eq_some {r : UidRegistry} (h : r.Represents K S) {x : RegisteredUid}
    (hl : r.lookup K uid = some x) : x ∈ r.uidHash.toList ∧ x.uid = uid ∧ uid ∈ S := by
  obtain ⟨hmem, hkey⟩ := h.wf.find?_eq_some.mp hl
  refine ⟨hmem, hkey, ?_⟩
  rw [← h.keys]
  exact mem_keys.mpr ⟨x, hmem, hkey⟩

theorem check {r : UidRegistry} (h : r.Represents K S) (uid : UInt32)
    : checkUid K uid r = checkKey uid S := by
  unfold checkUid checkKey
  split
  . next x hl => rw [if_pos (h.lookup_eq_some hl).2.2]
  . next hl => rw [if_neg (h.lookup_eq_none.mp hl)]

theorem register (h : s.uids.Represents K S) (uid : UInt32) (hk : env.kmalloc 0 24 = true)
    : (registerUserId env uid s).1 = (registerKey uid S).1
      ∧ (registerUserId env uid s).2.uids.Represents K (registerKey uid S).2 := by
  unfold registerUserId registerKey
  rw [hk, Heap.kmalloc_eq _ _ (by decide) (by decide)]
  dsimp only
  cases hl : s.uids.lookup K uid with
  | some x =>
    rw [if_pos (h.lookup_eq_some hl).2.2]
    exact ⟨rfl, h⟩
  | none =>
    have hout := h.lookup_eq_none.mp hl
    rw [if_neg hout]
    refine ⟨rfl, ?_, ?_, ?_⟩
    . apply h.wf.add (x := ⟨_, uid⟩)
      rwa [h.keys]
    . exact (keys_add _ _).trans (by rw [h.keys])
    . simp [Finset.card_insert_of_notMem hout, h.len]

theorem deregister (h : s.uids.Represents K S) (uid : UInt32)
    : (deregisterUserId uid s).1 = (deregisterKey uid S).1
      ∧ (deregisterUserId uid s).2.uids.Represents K (deregisterKey uid S).2 := by
  unfold deregisterUserId deregisterKey
  cases hl : s.uids.lookup K uid with
  | some x =>
    obtain ⟨hmem, rfl, hin⟩ := h.lookup_eq_some hl
    rw [if_pos hin]
    refine ⟨rfl, h.wf.del x, ?_, ?_⟩
    . exact (h.wf.keys_del hmem).trans (by rw [h.keys])
    . have : 0 < S.card := Finset.card_pos.mpr ⟨_, hin⟩
      have hlen := h.len
      simp only [Finset.card_erase_of_mem hin]
      omega
  | none =>
    rw [if_neg (h.lookup_eq_none.mp hl)]
    exact ⟨rfl, h⟩

end UidRegistry.Represents

end Uids

section Progs

variable {s : State K} {S : Finset (List UInt8)} {name : Comm} {env : Env}

namespace ProgRegistry.Represents

theorem lookup_eq_none {r : ProgRegistry} (h : r.Represents K S)
    : r.lookup K (hashValue K name) name = none ↔ name.str ∉ S := by
  rw [ProgRegistry.lookup_eq, ← h.keys]
  exact h.wf.find?_eq_none

theorem lookup_eq_some {r : ProgRegistry} (h : r.Represents K S) {x : RegisteredProg}
    (hl : r.lookup K (hashValue K name) name = some x)
    : x ∈ r.progHash.toList ∧ x.key = name.str ∧ name.str ∈ S := by
  rw [ProgRegistry.lookup_eq] at hl
  obtain ⟨hmem, hkey⟩ := h.wf.find?_eq_some.mp hl
  refine ⟨hmem, hkey, ?_⟩
  rw [← h.keys]
  exact mem_keys.mpr ⟨x, hmem, hkey⟩

theorem check {r : ProgRegistry} (h : r.Represents K S) (name : Comm)
    : checkProgname K name r = checkKey name.str S := by
  unfold checkProgname checkKey
  split
  . next x hl => rw [if_pos (h.lookup_eq_some hl).2.2]
  . next hl => rw [if_neg (h.lookup_eq_none.mp hl)]

theorem register (h : s.progs.Represents K S) (name : Comm)
    (hname : (Comm.strncpy name).str = name.str) (hk : env.kmalloc 0 32 = true)
    : (registerProgName env name s).1 = (registerKey name.str S).1
      ∧ (registerProgName env name s).2.progs.Represents K (registerKey name.str S).2 := by
  -- the node is hashed by its own copy, the lookup by the name in the request
  have hhash : hashValue K (Comm.strncpy name) = hashValue K name := by
    rw [hashValue_eq, hashValue_eq, hname]
  unfold registerProgName registerKey
  rw [hk, Heap.kmalloc_eq _ _ (by decide) (by decide)]
  dsimp only
  rw [hhash]
  cases hl : s.progs.lookup K (hashValue K name) name with
  | some x =>
    rw [if_pos (h.lookup_eq_some hl).2.2]
    exact ⟨rfl, h⟩
  | none =>
    have hout := h.lookup_eq_none.mp hl
    rw [if_neg hout, hashValue_eq, ← hname]
    rw [← hname] at hout
    refine ⟨rfl, ?_, ?_, ?_⟩
    . apply h.wf.add (x := ⟨_, Comm.strncpy name⟩)
      rwa [h.keys]
    . exact (keys_add _ _).trans (by rw [h.keys]; rfl)
    . simp [Finset.card_insert_of_notMem hout, h.len]

theorem deregister (h : s.progs.Represents K S) (name : Comm)
    : (deregisterProgName name s).1 = (deregisterKey name.str S).1
      ∧ (deregisterProgName name s).2.progs.Represents K (deregisterKey name.str S).2 := by
  unfold deregisterProgName deregisterKey
  cases hl : s.progs.lookup K (hashValue K name) name with
  | some x =>
    obtain ⟨hmem, hkey, hin⟩ := h.lookup_eq_some hl
    rw [if_pos hin]
    refine ⟨rfl, h.wf.del x, ?_, ?_⟩
    . exact (h.wf.keys_del hmem).trans (by rw [h.keys, hkey])
    . have : 0 < S.card := Finset.card_pos.mpr ⟨_, hin⟩
      have hlen := h.len
      simp only [Finset.card_erase_of_mem hin]
      omega
  | none =>
    rw [if_neg (h.lookup_eq_none.mp hl)]
    exact ⟨rfl, h⟩

end ProgRegistry.Represents

end Progs

structure State.Represents (s : State K) (A : Registered) : Prop where
  uids : s.uids.Represents K A.uids
  progs : s.progs.Represents K A.names

theorem State.represents_loaded (T : SyscallTable K) (stats : Ptr → SyscallStats) (now : Nat)
    : (State.loaded K T stats now).Represents .empty where
  uids := ⟨.empty, keys_empty, rfl⟩
  progs := ⟨.empty, keys_empty, rfl⟩

section Frame

variable (env : Env) (uid : UInt32) (name : Comm) (s : State K)

@[simp]
theorem registerUserId_progs : (registerUserId env uid s).2.progs = s.progs := by
  unfold registerUserId
  repeat' split
  all_goals rfl

@[simp]
theorem deregisterUserId_progs : (deregisterUserId uid s).2.progs = s.progs := by
  unfold deregisterUserId
  split <;> rfl

@[simp]
theorem registerProgName_uids : (registerProgName env name s).2.uids = s.uids := by
  unfold registerProgName
  repeat' split
  all_goals first | rfl | (dsimp only; split <;> rfl)

@[simp]
theorem deregisterProgName_uids : (deregisterProgName name s).2.uids = s.uids := by
  unfold deregisterProgName
  split <;> rfl

end Frame

section Failure

variable {env : Env} {uid : UInt32} {name : Comm} {s : State K}

theorem registerUserId_unchanged (h : (registerUserId env uid s).1 ≠ 0)
    : (registerUserId env uid s).2.uids = s.uids := by
  unfold registerUserId at h ⊢
  split
  . rfl
  . split
    . rfl
    . simp_all

theorem deregisterUserId_unchanged (h : (deregisterUserId uid s).1 ≠ 0)
    : (deregisterUserId uid s).2.uids = s.uids := by
  unfold deregisterUserId at h ⊢
  split
  . simp_all
  . rfl

theorem registerProgName_unchanged (h : (registerProgName env name s).1 ≠ 0)
    : (registerProgName env name s).2.progs = s.progs := by
  unfold registerProgName at h ⊢
  split
  . rfl
  . dsimp only
    split
    . rfl
    . simp_all

theorem deregisterProgName_unchanged (h : (deregisterProgName name s).1 ≠ 0)
    : (deregisterProgName name s).2.progs = s.progs := by
  unfold deregisterProgName at h ⊢
  split
  . simp_all
  . rfl

end Failure

structure Env.Succeeds (env : Env) : Prop where
  copyFromUser : env.copyFromUser = true
  copyToUser : ∀ k size, size ≤ env.copyToUser k size
  kmalloc : ∀ k size, env.kmalloc k size = true

namespace RegistryCmd

/-- The command as user space issues it. `old` is what a field `check` holds before the call. -/
def ioctl (old : Int) : RegistryCmd → Cmd
  | .registerUid uid => .registerUid uid
  | .deregisterUid uid => .deregisterUid uid
  | .checkUid uid => .checkUid { uid, check := old }
  | .registerProg name => .registerProg name
  | .deregisterProg name => .deregisterProg name
  | .checkProg name => .checkProg { name, check := old }

end RegistryCmd

def checkAnswer : List UserWrite → Option Int
  | [.checkUid arg] => some arg.check
  | [.checkProg arg] => some arg.check
  | _ => none

theorem ioctl_represents {env : Env} (henv : env.Succeeds) {s : State K} {A : Registered}
    (h : s.Represents A) (old : Int) (cmd : RegistryCmd)
    : let r := throttlingIoctl env 0 (cmd.ioctl old) s
      r.ret = (A.step cmd).1 ∧ checkAnswer r.out = (A.step cmd).2.1
        ∧ r.state.Represents (A.step cmd).2.2 := by
  have hin := henv.copyFromUser
  cases cmd with
  | registerUid uid =>
    have := h.uids.register uid (henv.kmalloc 0 24)
    simp only [RegistryCmd.ioctl, throttlingIoctl, queryIoctl, rootIoctl, hin, Registered.step]
    exact ⟨this.1, rfl, this.2, by simpa [IoctlResult.ofApi] using h.progs⟩
  | deregisterUid uid =>
    have := h.uids.deregister uid
    simp only [RegistryCmd.ioctl, throttlingIoctl, queryIoctl, rootIoctl, hin, Registered.step]
    exact ⟨this.1, rfl, this.2, by simpa [IoctlResult.ofApi] using h.progs⟩
  | checkUid uid =>
    simp only [RegistryCmd.ioctl, throttlingIoctl, queryIoctl, hin, Registered.step,
      copyOut_of_copies henv.copyToUser ((UserWrite.length_checkUid _).trans_lt (by decide))]
    exact ⟨rfl, congrArg some (h.uids.check uid), h⟩
  | registerProg name =>
    have hstr := Comm.str_strncpyFromUser name
    have := h.progs.register (strncpyFromUser name).terminate
      (Comm.str_strncpy_terminate _) (henv.kmalloc 0 32)
    rw [hstr] at this
    simp only [RegistryCmd.ioctl, throttlingIoctl, queryIoctl, rootIoctl, hin, Registered.step]
    exact ⟨this.1, rfl, by simpa [IoctlResult.ofApi] using h.uids, this.2⟩
  | deregisterProg name =>
    have hstr := Comm.str_strncpyFromUser name
    have := h.progs.deregister (strncpyFromUser name).terminate
    rw [hstr] at this
    simp only [RegistryCmd.ioctl, throttlingIoctl, queryIoctl, rootIoctl, hin, Registered.step]
    exact ⟨this.1, rfl, by simpa [IoctlResult.ofApi] using h.uids, this.2⟩
  | checkProg name =>
    have hcheck := h.progs.check name.terminate
    rw [Comm.str_terminate] at hcheck
    simp only [RegistryCmd.ioctl, throttlingIoctl, queryIoctl, hin, Registered.step,
      copyOut_of_copies henv.copyToUser ((UserWrite.length_checkProg _).trans_lt (by decide))]
    exact ⟨rfl, congrArg some hcheck, h⟩

theorem ioctl_unchanged {env : Env} (henv : env.Succeeds) {s : State K} (old : Int)
    (cmd : RegistryCmd) (h : (throttlingIoctl env 0 (cmd.ioctl old) s).ret ≠ 0)
    : (throttlingIoctl env 0 (cmd.ioctl old) s).state.uids = s.uids
      ∧ (throttlingIoctl env 0 (cmd.ioctl old) s).state.progs = s.progs := by
  have hin := henv.copyFromUser
  cases cmd with
  | registerUid uid =>
    simp only [RegistryCmd.ioctl, throttlingIoctl, queryIoctl, rootIoctl, hin] at h ⊢
    exact ⟨registerUserId_unchanged h, registerUserId_progs _ _ _⟩
  | deregisterUid uid =>
    simp only [RegistryCmd.ioctl, throttlingIoctl, queryIoctl, rootIoctl, hin] at h ⊢
    exact ⟨deregisterUserId_unchanged h, deregisterUserId_progs _ _⟩
  | registerProg name =>
    simp only [RegistryCmd.ioctl, throttlingIoctl, queryIoctl, rootIoctl, hin] at h ⊢
    exact ⟨registerProgName_uids _ _ _, registerProgName_unchanged h⟩
  | deregisterProg name =>
    simp only [RegistryCmd.ioctl, throttlingIoctl, queryIoctl, rootIoctl, hin] at h ⊢
    exact ⟨deregisterProgName_uids _ _, deregisterProgName_unchanged h⟩
  | checkUid uid =>
    simp [RegistryCmd.ioctl, throttlingIoctl, queryIoctl, copyOut_state, hin]
  | checkProg name =>
    simp [RegistryCmd.ioctl, throttlingIoctl, queryIoctl, copyOut_state, hin]

theorem Env.succeeds_sample : Env.sample.Succeeds where
  copyFromUser := rfl
  copyToUser _ size := Nat.le_refl size
  kmalloc _ _ := rfl

structure RegistryCall where
  env : Env
  succeeds : env.Succeeds
  old : Int
  cmd : RegistryCmd

namespace RegistryCall

def ioctl (s : State K) (call : RegistryCall) : IoctlResult K :=
  throttlingIoctl call.env 0 (call.cmd.ioctl call.old) s

def run (s : State K) : List RegistryCall → List (Int × Option Int) × State K
  | [] => ([], s)
  | call :: calls =>
    let r := call.ioctl s
    let (outs, s) := run r.state calls
    ((r.ret, checkAnswer r.out) :: outs, s)

theorem run_represents {s : State K} {A : Registered} (h : s.Represents A)
    (calls : List RegistryCall)
    : (run s calls).1 = (A.run (calls.map cmd)).1
      ∧ (run s calls).2.Represents (A.run (calls.map cmd)).2 := by
  induction calls generalizing s A with
  | nil => exact ⟨rfl, h⟩
  | cons call calls ih =>
    obtain ⟨hret, hcheck, hrep⟩ := ioctl_represents call.succeeds h call.old call.cmd
    obtain ⟨houts, hfinal⟩ := ih hrep
    refine ⟨?_, hfinal⟩
    simp only [run, List.map_cons, Registered.run]
    rw [← houts, ← hret, ← hcheck]
    rfl

end RegistryCall

def taskComm (exe : List UInt8) : Comm :=
  Comm.ofBytes (CString.truncate 15 exe)

theorem registries_refine_sets (T : SyscallTable K) (stats : Ptr → SyscallStats) (now : Nat)
    (calls : List RegistryCall)
    : let s := (RegistryCall.run (State.loaded K T stats now) calls).2
      let A := (Registered.empty.run (calls.map RegistryCall.cmd)).2
      (RegistryCall.run (State.loaded K T stats now) calls).1
          = (Registered.empty.run (calls.map RegistryCall.cmd)).1
        ∧ (∀ call : RegistryCall, (call.ioctl s).ret ≠ 0
          → (call.ioctl s).state.uids = s.uids ∧ (call.ioctl s).state.progs = s.progs)
        ∧ (∀ uid, checkUid K uid s.uids = checkKey uid A.uids)
        ∧ (∀ exe, checkProgname K (taskComm exe) s.progs = checkKey (progKey exe) A.names)
        ∧ (∀ uid, s.uids.uidHash.toList.countP (fun x => x.uid = uid)
          = if uid ∈ A.uids then 1 else 0)
        ∧ (∀ b, ∀ x ∈ s.uids.uidHash.bucket b, K.hashMin x.uid = b)
        ∧ (∀ k, s.progs.progHash.toList.countP (fun x => x.name.str = k)
          = if k ∈ A.names then 1 else 0)
        ∧ (∀ b, ∀ x ∈ s.progs.progHash.bucket b, K.hashMin (K.jhash x.name.str) = b)
        ∧ s.uids.uidsLen = A.uids.card
        ∧ s.progs.progNameLen = A.names.card := by
  intro s A
  obtain ⟨houts, h⟩ := RegistryCall.run_represents (State.represents_loaded T stats now) calls
  refine ⟨houts, ?_, ?_, ?_, ?_, h.uids.wf.placed, ?_, h.progs.wf.placed, h.uids.len, h.progs.len⟩
  . intro call
    exact ioctl_unchanged call.succeeds call.old call.cmd
  . intro uid
    exact h.uids.check uid
  . intro exe
    have := h.progs.check (taskComm exe)
    rwa [taskComm, Comm.str_ofBytes_truncate] at this
  . intro uid
    rw [h.uids.wf.countP_toList, h.uids.keys]
  . intro k
    exact (h.progs.wf.countP_toList k).trans (by rw [h.progs.keys])

/-- The uid 1000 is registered twice and deregistered twice. -/
def sampleRegistryCalls : List RegistryCall :=
  [.registerUid 1000, .registerUid 1000, .checkUid 1000, .registerProg [115, 115, 104],
    .deregisterUid 1000, .deregisterUid 1000].map fun cmd =>
      ⟨Env.sample, Env.succeeds_sample, 0, cmd⟩

theorem registries_refine_sets_sample
    : let r := RegistryCall.run
        (State.loaded Platform.sample SyscallTable.sample (fun _ => .zero) 0) sampleRegistryCalls
      r.1 = [(0, none), (-EEXIST, none), (0, some 1), (0, none), (0, none), (-ENOENT, none)]
        ∧ r.2.uids.uidsLen = 0 ∧ r.2.progs.progNameLen = 1 := by
  intro r
  obtain ⟨houts, _, _, _, _, _, _, _, huids, hprogs⟩ :=
    registries_refine_sets SyscallTable.sample (fun _ => .zero) 0 sampleRegistryCalls
  refine ⟨houts.trans ?_, huids.trans ?_, hprogs.trans ?_⟩ <;> decide

end Throttling

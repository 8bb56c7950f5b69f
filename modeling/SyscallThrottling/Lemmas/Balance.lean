import SyscallThrottling.Lemmas.Authority
import SyscallThrottling.Lemmas.Fetch
import SyscallThrottling.Lemmas.Owned
import SyscallThrottling.Lemmas.Unload

/-!
This module contains the balance of the objects the module allocates: what the registries own, and
what an ioctl or the unload leaves behind.
-/

namespace Throttling

open SyscallRegistry Heap

variable {K : Platform}

structure Account (s : State K) (leaked : List Ptr) : Prop where
  heap : s.heap.WellFormed
  live : s.heap.live.Perm (s.owned ++ leaked)

/-- `IOCTL_GET_THREAD_STATS` allocates the buffer of its answer. Nobody frees it. -/
def Op.Leaks : Op → Prop
  | .ioctl env _ (.getThreadStats arg) =>
    env.copyFromUser = true ∧ (arg.type = 0 ∨ arg.type = 1) ∧ env.kmalloc 0 40 = true
  | _ => False

section Queries

variable {env : Env} {s : State K}

theorem getThreadStats_heap (env : Env) (type : Int) (s : State K)
    : (env.kmalloc 0 40 = false ∧ getThreadStats env type s = (.error (-ENOMEM), s))
      ∨ (env.kmalloc 0 40 = true ∧ ∃ out s', getThreadStats env type s = (.ok (s.heap.brk, out), s')
        ∧ Extends s.heap s'.heap [s.heap.brk]) := by
  unfold getThreadStats
  rcases s.heap.kmalloc_cases (env.kmalloc 0 40) 40 (by decide) (by decide) with
    ⟨hk, heq⟩ | ⟨hk, heap, heq, hext⟩
  . rw [heq]
    exact .inl ⟨hk, rfl⟩
  . rw [heq]
    refine .inr ⟨hk, ?_⟩
    dsimp only
    split <;> exact ⟨_, _, rfl, hext (.refl _)⟩

theorem getSyscallStats_heap (env : Env) (sysNum : Int) (s : State K)
    : (∃ e s', getSyscallStats env sysNum s = (.error e, s') ∧ Extends s.heap s'.heap [])
      ∨ ∃ p out s', getSyscallStats env sysNum s = (.ok (p, out), s')
        ∧ Extends s.heap s'.heap [p] := by
  unfold getSyscallStats
  rcases s.heap.kmalloc_cases (env.kmalloc 0 40) 40 (by decide) (by decide) with
    ⟨_, heq⟩ | ⟨_, heap, heq, hext⟩
  . rw [heq]
    exact .inl ⟨_, _, rfl, .refl _⟩
  . rw [heq]
    dsimp only
    split
    . exact .inl ⟨_, _, rfl, (hext (.refl _)).kfree_head⟩
    . exact .inr ⟨_, _, _, rfl, hext (.refl _)⟩

theorem fetchAll_heap {α : Type} {arg : FetchAll} {l : List α} {size : Nat}
    {getAll : Env → Int → State K → Except Int (Ptr × List α) × State K} (toCopy : Nat → Nat)
    (write : List α → UserWrite)
    (hget : getAll env (toInt arg.max.toNat) s = withBuffer env s size l)
    (hsize : (size < 2 ^ 63 ∧ (size = 0 ↔ l = [])) ∨ 2 ^ 63 ≤ size)
    : Extends s.heap (fetchAll env arg getAll toCopy write s).state.heap [] := by
  have h := fetchAll_fetched env arg getAll toCopy write s
  rw [hget] at h
  generalize fetchAll env arg getAll toCopy write s = r at h ⊢
  rcases hsize with ⟨hlt, hnil⟩ | hhuge
  . by_cases h0 : size = 0
    . -- a buffer of no bytes is no object
      rw [hnil.mp h0, h0] at h
      cases h with
      | refused => exact .refl _
      | empty => exact .refl _
      | _ => contradiction
    . have hl : l ≠ [] := fun hl => h0 (hnil.mpr hl)
      unfold withBuffer at h
      rcases s.heap.kmalloc_cases (env.kmalloc 0 size) size h0 hlt with
        ⟨_, heq⟩ | ⟨_, heap, heq, hext⟩
      . rw [heq] at h
        cases h <;> exact .refl _
      . rw [heq] at h
        cases h with
        | refused => exact .refl _
        | empty => contradiction
        | _ => exact (hext (.refl _)).kfree_head
  . rw [withBuffer_huge l hhuge] at h
    cases h <;> exact .refl _

theorem State.Invariant.fetch_heap {T : SyscallTable K} (h : s.Invariant T) (env : Env)
    (euid : UInt32) (kind : Kind) (arg : FetchAll)
    : Extends s.heap (throttlingIoctl env euid (kind.fetch arg) s).state.heap [] := by
  by_cases hlt : arg.max.toNat < 2 ^ 31
  . obtain ⟨β, getAll, write, hio, _, _, l, hlen, _, hget⟩ := h.fills env euid kind arg hlt
    rw [hio]
    refine fetchAll_heap kind.toCopy write hget (.inl ?_)
    rw [← List.length_eq_zero_iff]
    cases kind <;> dsimp only [Kind.elementSize] <;> omega
  . obtain ⟨β, getAll, write, size, l, hio, hget, hsize⟩ := asks_huge h env euid kind arg (by omega)
    rw [hio]
    exact fetchAll_heap kind.toCopy write hget (.inr hsize)

theorem getThreadStatsIoctl_heap (env : Env) (euid : UInt32) (arg : ThreadStatsCr) (s : State K)
    : ∃ ps, Extends s.heap (throttlingIoctl env euid (.getThreadStats arg) s).state.heap ps
      ∧ (Op.Leaks (.ioctl env euid (.getThreadStats arg)) ↔ ps ≠ []) := by
  simp only [throttlingIoctl, queryIoctl, Op.Leaks]
  split
  . next hin => exact ⟨[], .refl _, by simp [hin]⟩
  . next hin =>
    rw [Bool.not_eq_false] at hin
    split
    . next htype =>
      have : ¬(arg.type = 0 ∨ arg.type = 1) := by omega
      exact ⟨[], .refl _, by simp [this]⟩
    . next htype =>
      have htype' : arg.type = 0 ∨ arg.type = 1 := by omega
      rcases getThreadStats_heap env arg.type s with ⟨hk, heq⟩ | ⟨hk, out, s', heq, hext⟩
      . rw [heq]
        exact ⟨[], .refl _, by simp [hk]⟩
      . rw [heq]
        exact ⟨_, hext, by simp [hin, htype', hk]⟩

theorem getSyscallStatsIoctl_heap (env : Env) (euid : UInt32) (arg : SyscallCr) (s : State K)
    : Extends s.heap (throttlingIoctl env euid (.getSyscallStats arg) s).state.heap [] := by
  simp only [throttlingIoctl, queryIoctl]
  split
  . exact .refl _
  . split
    . exact .refl _
    . rcases getSyscallStats_heap env arg.syscallNr s with ⟨e, s', heq, hext⟩
        | ⟨p, out, s', heq, hext⟩
      . rw [heq]
        exact hext
      . rw [heq]
        exact hext.kfree_head

theorem State.Invariant.query_heap {T : SyscallTable K} (h : s.Invariant T) (env : Env)
    (euid : UInt32) {cmd : Cmd} (hq : cmd.isQuery = true)
    : ∃ ps, Extends s.heap (throttlingIoctl env euid cmd s).state.heap ps
      ∧ (Op.Leaks (.ioctl env euid cmd) ↔ ps ≠ []) := by
  cases cmd <;> simp only [Cmd.isQuery, Bool.false_eq_true] at hq
  case getThreadStats arg => exact getThreadStatsIoctl_heap env euid arg s
  case getSyscallStats arg =>
    exact ⟨[], getSyscallStatsIoctl_heap env euid arg s, by simp [Op.Leaks]⟩
  case getAllSyscalls arg => exact ⟨[], h.fetch_heap env euid .syscalls arg, by simp [Op.Leaks]⟩
  case getAllUids arg => exact ⟨[], h.fetch_heap env euid .uids arg, by simp [Op.Leaks]⟩
  case getAllProgs arg => exact ⟨[], h.fetch_heap env euid .progs arg, by simp [Op.Leaks]⟩
  all_goals
    refine ⟨[], ?_, by simp [Op.Leaks]⟩
    simp only [throttlingIoctl, queryIoctl]
    repeat' split
    all_goals exact .refl _

end Queries

namespace Account

variable {T : SyscallTable K} {s s' : State K} {leaked leaked' ps : List Ptr}

theorem loaded (T : SyscallTable K) (stats : Ptr → SyscallStats) (now : Nat)
    : Account (State.loaded K T stats now) [] where
  heap := ⟨by simp [State.loaded, State.initial], by simp [State.loaded, State.initial]⟩
  live := by simp [State.loaded, State.initial, State.owned]

theorem gain (h : Account s leaked) (hext : Extends s.heap s'.heap ps)
    (howned : (s'.owned ++ leaked').Perm (ps ++ (s.owned ++ leaked))) : Account s' leaked' where
  heap := h.heap.extends hext
  live := by
    rw [hext.live]
    exact (h.live.append_left ps).trans howned.symm

theorem gains (h : Account s leaked) (hg : ∃ ps, Gains s s' ps) : Account s' leaked := by
  obtain ⟨ps, hheap, howned⟩ := hg
  refine h.gain hheap ?_
  rw [← List.append_assoc]
  exact howned.append_right leaked

theorem nodup_owned (h : Account s leaked) : s.owned.Nodup :=
  (List.nodup_append.mp ((h.live.nodup_iff).mp h.heap.nodup)).1

theorem loses (h : Account s leaked) (hl : ∃ ps, Loses s s' ps) : Account s' leaked := by
  obtain ⟨ps, hheap, howned⟩ := hl
  constructor
  . rw [hheap]
    exact h.heap.foldl_kfree ps
  . rw [hheap]
    refine live_foldl_kfree (h.live.trans ?_)
    rw [← List.append_assoc]
    exact howned.append_right leaked

theorem rootIoctl (h : Account s leaked) (env : Env) (cmd : Cmd)
    : Account (rootIoctl env s cmd).state leaked :=
  rootIoctl_cases (P := fun s => Account s leaked) cmd h
    (fun n => h.gains (registerSystemCall_gains env n s))
    (fun n => h.loses (Removal.loses h.nodup_owned (.syscall n)))
    (fun uid => h.gains (registerUserId_gains env uid s))
    (fun uid => h.loses (Removal.loses h.nodup_owned (.uid uid)))
    (fun _ => h.gains (registerProgName_gains env _ s))
    (fun _ => h.loses (Removal.loses h.nodup_owned (.prog _)))
    (fun _ => ⟨h.heap, h.live⟩) ⟨h.heap, h.live⟩ ⟨h.heap, h.live⟩

theorem ioctl (h : Account s leaked) (hI : s.Invariant T) (env : Env) (euid : UInt32) (cmd : Cmd)
    : ∃ ps, Account (throttlingIoctl env euid cmd s).state (ps ++ leaked)
      ∧ (Op.Leaks (.ioctl env euid cmd) ↔ ps ≠ []) := by
  cases hq : cmd.isQuery with
  | true =>
    obtain ⟨ps, hext, hleaks⟩ := hI.query_heap env euid hq
    refine ⟨ps, ?_, hleaks⟩
    obtain ⟨heap, hs⟩ := (ioctl_changes_only_for_root env euid cmd s).1 (.inr (.inr hq))
    rw [hs] at hext ⊢
    exact h.gain hext (List.perm_append_comm_assoc ..)
  | false =>
    refine ⟨[], ?_, by cases cmd <;> simp [Op.Leaks, Cmd.isQuery] at hq ⊢⟩
    have hnone : queryIoctl env s cmd = none := by
      have := isSome_queryIoctl env s cmd
      rwa [hq, Option.isSome_eq_false_iff, Option.isNone_iff_eq_none] at this
    unfold throttlingIoctl
    rw [hnone]
    dsimp only
    split
    . exact h
    . exact h.rootIoctl env cmd

theorem apply (h : Account s leaked) (hI : s.Invariant T) (op : Op)
    : ∃ ps, Account (op.apply s) (ps ++ leaked) ∧ (op.Leaks ↔ ps ≠ []) := by
  cases op with
  | ioctl env euid cmd => exact h.ioctl hI env euid cmd
  | tick d => exact ⟨[], ⟨h.heap, h.live⟩, by simp [Op.Leaks]⟩
  | timer => exact ⟨[], ⟨h.heap, h.live⟩, by simp [Op.Leaks]⟩

theorem run (h : Account s leaked) (hI : s.Invariant T) (ops : List Op)
    : ∃ ps, Account (Op.run s ops) (ps ++ leaked) ∧ ((∃ op ∈ ops, op.Leaks) ↔ ps ≠ []) := by
  induction ops generalizing s leaked with
  | nil => exact ⟨[], h, by simp⟩
  | cons op ops ih =>
    obtain ⟨ps, hop, hleaks⟩ := h.apply hI op
    obtain ⟨qs, hrun, hleaks'⟩ := ih hop (Op.invariant_run hI [op])
    refine ⟨qs ++ ps, by rwa [List.append_assoc], ?_⟩
    simp only [List.exists_mem_cons_iff, hleaks, hleaks', ne_eq, List.append_eq_nil_iff]
    tauto

end Account

/-- Two objects for each system call, and one for each uid and each program name. -/
structure Balanced (s : State K) : Prop where
  objects : s.heap.live.Perm s.owned
  nodup : s.heap.live.Nodup
  length : s.heap.live.length
    = 2 * s.cardinality .syscalls + s.cardinality .uids + s.cardinality .progs

section Cleanup

variable {T : SyscallTable K} {s : State K} {leaked : List Ptr}

theorem State.Invariant.length_owned (h : s.Invariant T)
    : s.owned.length
      = 2 * s.cardinality .syscalls + s.cardinality .uids + s.cardinality .progs := by
  have hsys : s.sys.hackedSyscallHash.toList.length = s.cardinality .syscalls := by
    rw [h.sys.wf.length_toList]
    have := h.sysLen_eq
    rw [h.sys.len] at this
    exact_mod_cast this
  have huids : s.uids.uidHash.toList.length = s.cardinality .uids := by
    rw [h.cardinality_eq, State.entities, List.length_map]
  have hprogs : s.progs.progHash.toList.length = s.cardinality .progs := by
    rw [h.cardinality_eq, State.entities, List.length_map]
  simp only [State.owned, List.length_append, List.length_map, List.length_flatMap,
    List.length_cons,
    List.length_nil, List.map_const', List.sum_replicate, Nat.nsmul_eq_mul, hsys, huids,
    hprogs]
  omega

theorem Account.balanced_iff (h : Account s leaked) (hI : s.Invariant T)
    : Balanced s ↔ leaked = [] := by
  constructor
  . intro hb
    have hlen := h.live.length_eq
    rw [hb.objects.length_eq, List.length_append] at hlen
    exact List.length_eq_zero_iff.mp (by omega)
  . rintro rfl
    have hlive := h.live
    rw [List.append_nil] at hlive
    exact ⟨hlive, h.heap.nodup, by rw [hlive.length_eq, hI.length_owned]⟩

/-- `cleanup_rcu` frees the nodes, but not the statistics of the system calls. -/
theorem Account.live_cleanupRcu (h : Account s leaked)
    : (cleanupRcu s).2.heap.live.Perm
        (s.sys.hackedSyscallHash.toList.map (fun x => x.stats) ++ leaked) := by
  apply live_foldl_kfree
  refine h.live.trans ?_
  rw [← List.append_assoc]
  apply List.Perm.append_right
  have hsys := List.flatMap_append_perm s.sys.hackedSyscallHash.toList (fun x => [x.addr])
    (fun x => [x.stats])
  rw [← List.map_eq_flatMap, ← List.map_eq_flatMap] at hsys
  refine (hsys.symm.append_right _).trans ?_
  simp only [List.append_assoc]
  apply List.Perm.append_left
  rw [← List.append_assoc (s.uids.uidHash.toList.map _)]
  exact List.perm_append_comm

theorem State.Invariant.toList_eq_nil_iff (h : s.Invariant T)
    : s.sys.hackedSyscallHash.toList = [] ↔ ∀ n, s.sys.syscallArray n = 0 := by
  simp only [← h.sys.not_mem_numbers_iff, List.eq_nil_iff_forall_not_mem]
  constructor
  . intro hnil n hn
    obtain ⟨x, hx, _⟩ := HashTable.mem_keys.mp hn
    exact hnil x hx
  . intro hnone x hx
    exact hnone x.syscallNr (HashTable.mem_keys.mpr ⟨x, hx, rfl⟩)

end Cleanup

namespace Module

/--
The objects balance, over all the calls and the unload, exactly when no command of the sequence asks
for the statistics on threads and no system call is registered at the end.
-/
theorem allocations_balance_iff (env : LoadEnv) (call : Nat) (text : Nat → UInt8)
    (T : SyscallTable K) (stats : Ptr → SyscallStats) (now : Nat) (ops : List Op)
    (h : ((initial text T stats now).initModule env call).1 = 0)
    : let m := ((initial text T stats now).initModule env call).2
      ((∀ k, Balanced (m.run (ops.take k)).state)
          ∧ (m.run ops).cleanupModule.state.heap.live = [])
        ↔ (∀ op ∈ ops, ¬op.Leaks) ∧ ∀ n, (m.run ops).state.sys.syscallArray n = 0 := by
  intro m
  have hI : ∀ ops, (m.run ops).state.Invariant T := by
    intro ops
    rw [Module.run, show m.state = _ from (initModule_success h).2.2]
    exact Op.invariant_run (.loaded T stats now) ops
  have hA : ∀ ops, ∃ ps, Account (m.run ops).state ps ∧ ((∃ op ∈ ops, op.Leaks) ↔ ps ≠ []) := by
    intro ops
    rw [Module.run, show m.state = _ from (initModule_success h).2.2]
    obtain ⟨ps, hrun, hleaks⟩ := (Account.loaded T stats now).run (.loaded T stats now) ops
    exact ⟨ps, by simpa using hrun, hleaks⟩
  have hlive : ∀ ps, Account (m.run ops).state ps →
      ((m.run ops).cleanupModule.state.heap.live = []
        ↔ (∀ n, (m.run ops).state.sys.syscallArray n = 0) ∧ ps = []) := by
    intro ps hacc
    change (cleanupRcu (m.run ops).state).2.heap.live = [] ↔ _
    rw [← List.perm_nil, hacc.live_cleanupRcu.congr_left, List.perm_nil, List.append_eq_nil_iff,
      List.map_eq_nil_iff, (hI ops).toList_eq_nil_iff]
  obtain ⟨ps, hacc, hleaks⟩ := hA ops
  constructor
  . rintro ⟨_, hclean⟩
    obtain ⟨hnone, hnil⟩ := (hlive ps hacc).mp hclean
    refine ⟨fun op hop hleak => ?_, hnone⟩
    exact hleaks.mp ⟨op, hop, hleak⟩ hnil
  . rintro ⟨hno, hnone⟩
    refine ⟨fun k => ?_, (hlive ps hacc).mpr ⟨hnone, ?_⟩⟩
    . obtain ⟨qs, hacc', hleaks'⟩ := hA (ops.take k)
      rw [hacc'.balanced_iff (hI _), ← not_ne_iff, ← hleaks']
      rintro ⟨op, hop, hleak⟩
      exact hno op (List.mem_of_mem_take hop) hleak
    . rw [← not_ne_iff, ← hleaks]
      rintro ⟨op, hop, hleak⟩
      exact hno op hop hleak

def sampleThreadStats : Op :=
  .ioctl Env.sample 1000 (.getThreadStats ⟨0, 0, 0, 0, 0, 0, 0⟩)

theorem allocations_balance_iff_deregistered
    : let ops :=
      [.ioctl Env.sample 0 (.registerSyscall 83), .ioctl Env.sample 0 (.registerUid 1000),
        .ioctl Env.sample 0 (.deregisterSyscall 83)]
      let m := (sampleLoad fun _ => 0x90).2
      (∀ k, Balanced (m.run (ops.take k)).state)
        ∧ (m.run ops).cleanupModule.state.heap.live = [] := by
  intro ops m
  dsimp only [m, sampleLoad]
  refine (allocations_balance_iff _ 0x9000 (fun _ => 0x90) SyscallTable.sample (fun _ => .zero) 0 ops
    (by decide)).mpr ⟨?_, ?_⟩
  . simp [ops, Op.Leaks]
  . intro n
    by_cases hn : n = ⟨83, by decide⟩
    . subst hn
      decide +kernel
    . exact (Function.update_of_ne hn _ _).trans (Function.update_of_ne hn _ _)

/-- The first object is lost by a query of any user, the second one by the unload. -/
theorem allocations_leak
    : let m := (sampleLoad fun _ => 0x90).2
      let registered := m.run [.ioctl Env.sample 0 (.registerSyscall 83)]
      (sampleLoad fun _ => 0x90).1 = 0
        ∧ ¬Balanced (m.run [sampleThreadStats]).state
        ∧ (m.run [sampleThreadStats]).state.heap.live = [1]
        ∧ (m.run [sampleThreadStats]).state.owned = []
        ∧ registered.state.heap.live = [2, 1]
        ∧ registered.cleanupModule.state.heap.live = [1] := by
  intro m registered
  have hlive : (m.run [sampleThreadStats]).state.heap.live = [1] := by decide +kernel
  have howned : (m.run [sampleThreadStats]).state.owned = [] := by decide +kernel
  refine ⟨by decide, fun hb => ?_, hlive, howned, by decide +kernel, by decide +kernel⟩
  have hlen := hb.objects.length_eq
  rw [hlive, howned] at hlen
  exact absurd hlen (by decide)

end Module

end Throttling

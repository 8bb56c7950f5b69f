import SyscallThrottling.Lemmas.Listing
import SyscallThrottling.Spec.Managed

/-!
This module contains what the interface shows over whole sessions: of the registries, the monitor
and the limit it prints what an administrator with a list of them would say. In two entries the
administrator does as the code does. For 0 entry 15 counts the uids and for 1 the system calls,
which it announces the other way round. And the entries that change the uids are refused by a
negative number that was typed in another entry.
-/

namespace Throttling

open SyscallRegistry

variable {K : Platform}

/-- `A` says what is registered in `s`, and how the monitor is set. -/
structure State.Serves (T : SyscallTable K) (s : State K) (A : Managed K) : Prop where
  sys : Consistent T s.sys
  hooks : s.sys.numbers = A.hooks
  uids : s.uids.Represents K A.registered.uids
  progs : s.progs.Represents K A.registered.names
  on : s.mon.isMonitorActive = if A.on then 1 else 0
  max : s.mon.maxSyscallsPerSec = A.max

section Updates

variable {T : SyscallTable K} {s : State K} {env : Env} {S : Finset (Fin K.nrSyscalls)}

theorem registerSystemCall_hooks (h : Consistent T s.sys) (henv : env.Succeeds)
    (n : Fin K.nrSyscalls)
    : (registerSystemCall env (n : Nat) s).1 = (registerKey n s.sys.numbers).1
      ∧ (registerSystemCall env (n : Nat) s).2.sys.numbers = (registerKey n s.sys.numbers).2 := by
  unfold registerKey
  rcases registerSystemCall_cases env n s with ⟨hk, _⟩ | ⟨_, _, ha, hr, hs⟩
    | ⟨_, _, ha, hr, node, stats, rfl, _, hs⟩
  . simp [henv.kmalloc] at hk
  . have hin : n ∈ s.sys.numbers := by
      by_contra hout
      exact ha (h.not_mem_numbers_iff.mp hout)
    rw [hr, hs, if_pos hin]
    exact ⟨rfl, rfl⟩
  . rw [← h.not_mem_numbers_iff] at ha
    rw [hr, hs, if_neg ha]
    exact ⟨rfl, by simp⟩

theorem deregisterSystemCall_hooks (h : Consistent T s.sys) (n : Fin K.nrSyscalls)
    : (deregisterSystemCall (n : Nat) s).1 = (deregisterKey n s.sys.numbers).1
      ∧ (deregisterSystemCall (n : Nat) s).2.sys.numbers = (deregisterKey n s.sys.numbers).2 := by
  unfold deregisterKey
  rcases deregisterSystemCall_cases n s with ⟨ha, hr, hs⟩ | ⟨ha, hl, _⟩ | ⟨ha, hr, node, hl, hs⟩
  . rw [← h.not_mem_numbers_iff] at ha
    rw [hr, hs, if_neg ha]
    exact ⟨rfl, rfl⟩
  . rw [h.lookup_eq_none, h.not_mem_numbers_iff] at hl
    exact absurd hl ha
  . obtain ⟨hmem, rfl⟩ := h.lookup_eq_some.mp hl
    have hin : node.syscallNr ∈ s.sys.numbers := HashTable.mem_keys.mpr ⟨node, hmem, rfl⟩
    rw [hr, hs, if_pos hin]
    refine ⟨rfl, ?_⟩
    rw [numbers_addLen, ((h.toLinked.setTbl _ _).setArray _ _).numbers_hashDel hmem]
    rfl

theorem Monitor.runTimer_settings (m : Monitor)
    : (m.runTimer K).isMonitorActive = m.isMonitorActive
      ∧ (m.runTimer K).maxSyscallsPerSec = m.maxSyscallsPerSec := by
  unfold runTimer epochHandler
  repeat' split
  all_goals
    first
    | exact ⟨rfl, rfl⟩
    | (dsimp only
       split <;> exact ⟨rfl, rfl⟩)

end Updates

/--
How the driver answers the update `cmd` of root: as `r` says. Where `r` says nothing, it refuses.
-/
def Answers (T : SyscallTable K) (env : Env) (s : State K) (cmd : Cmd)
    : Option (Int × Managed K) → Prop
  | some (ret, A) => (rootIoctl env s cmd).ret = ret ∧ (rootIoctl env s cmd).state.Serves T A
  | none => (rootIoctl env s cmd).ret = -EINVAL ∧ (rootIoctl env s cmd).state = s

structure Shows (T : SyscallTable K) (r : Message × Interface × State K)
    (a : Option Message × Interface × Managed K) : Prop where
  message : ∀ m, a.1 = some m → r.1 = m
  interface : r.2.1 = a.2.1
  serves : r.2.2.Serves T a.2.2

section Answers

variable {T : SyscallTable K} {s : State K} {A : Managed K} {env : Env}

theorem State.Serves.sameButHeap {s' : State K} (h : s.Serves T A) (hs : SameButHeap s s')
    : s'.Serves T A := by
  obtain ⟨heap, rfl⟩ := hs
  exact ⟨h.sys, h.hooks, h.uids, h.progs, h.on, h.max⟩

theorem syscallNr?_cases (n : Int)
    : (∃ i : Fin K.nrSyscalls, n = (i : Nat) ∧ ¬(n < 0 ∨ n ≥ K.nrSyscalls) ∧ syscallNr? K n = some i)
      ∨ ((n < 0 ∨ n ≥ K.nrSyscalls) ∧ syscallNr? K n = none) := by
  unfold syscallNr?
  split
  . next hn =>
    left
    refine ⟨⟨n.toNat, hn.2⟩, ?_, by omega, rfl⟩
    dsimp only
    omega
  . next hn =>
    right
    exact ⟨by omega, rfl⟩

theorem State.Serves.query (h : s.Serves T A) (euid : UInt32) {cmd : Cmd} {r : IoctlResult K}
    (hr : queryIoctl env s cmd = some r) : (throttlingIoctl env euid cmd s).state.Serves T A := by
  unfold throttlingIoctl
  rw [hr]
  exact h.sameButHeap (queryIoctl_sameButHeap hr)

theorem registerSyscall_answers (h : s.Serves T A) (henv : env.Succeeds) (n : Int)
    : Answers T env s (.registerSyscall n)
        ((syscallNr? K n).map fun n => A.updateHooks (.register true n)) := by
  unfold Answers
  rcases syscallNr?_cases (K := K) n with ⟨i, rfl, hrange, hi⟩ | ⟨hrange, hnone⟩
  . obtain ⟨hret, hnumbers⟩ := registerSystemCall_hooks h.sys henv i
    have hconsistent := h.sys.registerSystemCall env i
    obtain ⟨sys, heap, hs⟩ := registerSystemCall_frame env i s
    rw [h.hooks] at hret hnumbers
    rw [hs] at hnumbers hconsistent
    simp only [hi, Option.map_some, rootIoctl, henv.copyFromUser, hrange, Bool.true_eq_false,
      if_false, IoctlResult.ofApi, hs]
    exact ⟨hret, hconsistent, hnumbers, h.uids, h.progs, h.on, h.max⟩
  . simp only [hnone, Option.map_none, rootIoctl, henv.copyFromUser, hrange, Bool.true_eq_false,
      if_false, if_true]
    exact ⟨rfl, rfl⟩

theorem deregisterSyscall_answers (h : s.Serves T A) (henv : env.Succeeds) (n : Int)
    : Answers T env s (.deregisterSyscall n)
        ((syscallNr? K n).map fun n => A.updateHooks (.deregister n)) := by
  unfold Answers
  rcases syscallNr?_cases (K := K) n with ⟨i, rfl, hrange, hi⟩ | ⟨hrange, hnone⟩
  . obtain ⟨hret, hnumbers⟩ := deregisterSystemCall_hooks h.sys i
    have hconsistent := h.sys.deregisterSystemCall i
    obtain ⟨sys, heap, hs⟩ := deregisterSystemCall_frame i s
    rw [h.hooks] at hret hnumbers
    rw [hs] at hnumbers hconsistent
    simp only [hi, Option.map_some, rootIoctl, henv.copyFromUser, hrange, Bool.true_eq_false,
      if_false, IoctlResult.ofApi, hs]
    exact ⟨hret, hconsistent, hnumbers, h.uids, h.progs, h.on, h.max⟩
  . simp only [hnone, Option.map_none, rootIoctl, henv.copyFromUser, hrange, Bool.true_eq_false,
      if_false, if_true]
    exact ⟨rfl, rfl⟩

theorem registerUid_answers (h : s.Serves T A) (henv : env.Succeeds) (uid : UInt32)
    : Answers T env s (.registerUid uid) (some (A.updateRegistered (.registerUid uid))) := by
  obtain ⟨hret, huids⟩ := h.uids.register uid (henv.kmalloc 0 24)
  obtain ⟨uids, heap, hs⟩ := registerUserId_frame env uid s
  rw [hs] at huids
  simp only [Answers, rootIoctl, henv.copyFromUser, Bool.true_eq_false, if_false, IoctlResult.ofApi,
    hs]
  exact ⟨hret, h.sys, h.hooks, huids, h.progs, h.on, h.max⟩

theorem deregisterUid_answers (h : s.Serves T A) (henv : env.Succeeds) (uid : UInt32)
    : Answers T env s (.deregisterUid uid) (some (A.updateRegistered (.deregisterUid uid))) := by
  obtain ⟨hret, huids⟩ := h.uids.deregister uid
  obtain ⟨uids, heap, hs⟩ := deregisterUserId_frame uid s
  rw [hs] at huids
  simp only [Answers, rootIoctl, henv.copyFromUser, Bool.true_eq_false, if_false, IoctlResult.ofApi,
    hs]
  exact ⟨hret, h.sys, h.hooks, huids, h.progs, h.on, h.max⟩

theorem registerProg_answers (h : s.Serves T A) (henv : env.Succeeds) (name : List UInt8)
    : Answers T env s (.registerProg name) (some (A.updateRegistered (.registerProg name))) := by
  obtain ⟨hret, hprogs⟩ := h.progs.register (strncpyFromUser name).terminate
    (Comm.str_strncpy_terminate _) (henv.kmalloc 0 32)
  rw [Comm.str_strncpyFromUser] at hret hprogs
  obtain ⟨progs, heap, hs⟩ := registerProgName_frame env (strncpyFromUser name).terminate s
  rw [hs] at hprogs
  simp only [Answers, rootIoctl, henv.copyFromUser, Bool.true_eq_false, if_false, IoctlResult.ofApi,
    hs]
  exact ⟨hret, h.sys, h.hooks, h.uids, hprogs, h.on, h.max⟩

theorem deregisterProg_answers (h : s.Serves T A) (henv : env.Succeeds) (name : List UInt8)
    : Answers T env s (.deregisterProg name) (some (A.updateRegistered (.deregisterProg name))) := by
  obtain ⟨hret, hprogs⟩ := h.progs.deregister (strncpyFromUser name).terminate
  rw [Comm.str_strncpyFromUser] at hret hprogs
  obtain ⟨progs, heap, hs⟩ := deregisterProgName_frame (strncpyFromUser name).terminate s
  rw [hs] at hprogs
  simp only [Answers, rootIoctl, henv.copyFromUser, Bool.true_eq_false, if_false, IoctlResult.ofApi,
    hs]
  exact ⟨hret, h.sys, h.hooks, h.uids, hprogs, h.on, h.max⟩

theorem setMax_answers (h : s.Serves T A) (henv : env.Succeeds) (newMax : Int)
    : Answers T env s (.setMaxCalls newMax) (some (A.setMax newMax)) := by
  simp only [Answers, rootIoctl, henv.copyFromUser, Bool.true_eq_false, if_false,
    IoctlResult.ofMonitor, Monitor.setMaxSyscall, Managed.setMax]
  split
  . exact ⟨rfl, h.sys, h.hooks, h.uids, h.progs, h.on, h.max⟩
  . exact ⟨rfl, h.sys, h.hooks, h.uids, h.progs, h.on, rfl⟩

theorem monitorOn_answers (h : s.Serves T A)
    : Answers T env s .monitorOn (some (A.switch true)) := by
  have hon := h.on
  simp only [Answers, rootIoctl, IoctlResult.ofMonitor, Monitor.switchOnMonitor, Managed.switch]
  cases hA : A.on with
  | true =>
    rw [hA, if_pos rfl] at hon
    rw [if_neg (by omega), if_pos rfl]
    exact ⟨rfl, h.sys, h.hooks, h.uids, h.progs, h.on, h.max⟩
  | false =>
    rw [hA, if_neg Bool.false_ne_true] at hon
    rw [if_pos hon, if_neg (by decide)]
    exact ⟨rfl, h.sys, h.hooks, h.uids, h.progs, rfl, h.max⟩

theorem monitorOff_answers (h : s.Serves T A)
    : Answers T env s .monitorOff (some (A.switch false)) := by
  have hon := h.on
  simp only [Answers, rootIoctl, IoctlResult.ofMonitor, Monitor.switchOffMonitor, Managed.switch]
  cases hA : A.on with
  | true =>
    rw [hA, if_pos rfl] at hon
    rw [if_pos hon, if_neg (by decide)]
    exact ⟨rfl, h.sys, h.hooks, h.uids, h.progs, rfl, h.max⟩
  | false =>
    rw [hA, if_neg Bool.false_ne_true] at hon
    rw [if_neg (by omega), if_pos rfl]
    exact ⟨rfl, h.sys, h.hooks, h.uids, h.progs, h.on, h.max⟩

/--
An entry that issues the update `cmd`. The error of a caller who is not root has no message of its
own.
-/
theorem issue_shows (h : s.Serves T A) {inp : Round} {euid : UInt32} {cmd : Cmd} {expected : Int}
    {done failed : Message} {g : Interface} {r : Option (Int × Managed K)}
    (hanswers : Answers T inp.env.1 s cmd r) (hcmd : queryIoctl inp.env.1 s cmd = none)
    (hexpected : expected ≠ EPERM) (hinval : r = none → expected ≠ EINVAL)
    : Shows T (MenuEntry.issue inp euid cmd expected done failed g s)
        (some (A.tell (euid = 0) expected done failed r).1, g,
          (A.tell (euid = 0) expected done failed r).2) := by
  have hrefused : ∀ e, e ≠ expected → 0 < e → report (-e) expected done failed = .error := by
    intro e hne hpos
    unfold report
    rw [if_pos (by omega), if_neg (by omega)]
  unfold MenuEntry.issue throttlingIoctl
  rw [hcmd]
  by_cases heuid : euid = 0
  . simp only [heuid, ne_eq, not_true_eq_false, if_false, decide_true, Managed.tell]
    cases r with
    | none =>
      obtain ⟨hret, hstate⟩ := hanswers
      rw [hret, hstate]
      constructor
      . rintro _ ⟨⟩
        exact hrefused EINVAL (hinval rfl).symm (by decide)
      . rfl
      . exact h
    | some r =>
      obtain ⟨hret, hserves⟩ := hanswers
      rw [hret]
      exact ⟨by rintro _ ⟨⟩; rfl, rfl, hserves⟩
  . simp only [heuid, ne_eq, not_false_eq_true, if_true, decide_false, Managed.tell]
    constructor
    . rintro _ ⟨⟩
      exact hrefused EPERM hexpected.symm (by decide)
    . rfl
    . exact h

theorem guarded_shows (h : s.Serves T A) {g : Interface} {rest : Message × Interface × State K}
    {rest' : Option Message × Interface × Managed K} (hrest : Shows T rest rest')
    : Shows T (MenuEntry.guarded g s rest)
      (if g.intVal < 0 then (some .invalid, g, A) else rest') := by
  unfold MenuEntry.guarded
  split
  . exact ⟨by rintro _ ⟨⟩; rfl, rfl, h⟩
  . exact hrest

theorem decide_checkKey {κ : Type} [DecidableEq κ] (k : κ) (S : Finset κ)
    : decide (checkKey k S ≠ 0) = decide (k ∈ S) := by
  unfold checkKey
  split
  . next hin => simp [hin]
  . next hout => simp [hout]

theorem checkSyscall_eq (h : s.Serves T A) (i : Fin K.nrSyscalls)
    : checkSyscall (i : Nat) s.sys = checkKey i A.hooks := by
  unfold checkSyscall checkKey
  rw [arrayIndexNospec_coe, ← h.hooks]
  by_cases hi : i ∈ s.sys.numbers
  . rw [if_pos hi, h.sys.mem_numbers_iff.mp hi]
    rfl
  . rw [if_neg hi, h.sys.not_mem_numbers_iff.mp hi]
    rfl

theorem checkSyscall_shows (h : s.Serves T A) {inp : Round} (henv : inp.env.1.Succeeds)
    (euid : UInt32) (root : Bool) (g : Interface)
    : Shows T (MenuEntry.checkSyscall.run inp euid g s) (A.step root inp g .checkSyscall) := by
  simp only [MenuEntry.run, Managed.step, throttlingIoctl, queryIoctl, henv.copyFromUser,
    Bool.true_eq_false, if_false]
  rcases syscallNr?_cases (K := K) (inp.number.getD 0) with ⟨i, hi, hrange, hsome⟩ | ⟨hrange, hnone⟩
  . simp only [hrange, if_false, hsome, copyOut_of_copies henv.copyToUser
      ((UserWrite.length_checkSyscall _).trans_lt (by decide))]
    refine ⟨?_, rfl, h⟩
    rintro _ ⟨⟩
    simp only [readCheckSyscall, hi, checkSyscall_eq h, decide_checkKey]
    rfl
  . simp only [hrange, if_true, hnone]
    exact ⟨by rintro _ ⟨⟩; rfl, rfl, h⟩

theorem checkUid_shows (h : s.Serves T A) {inp : Round} (henv : inp.env.1.Succeeds) (euid : UInt32)
    (root : Bool) (g : Interface)
    : Shows T (MenuEntry.checkUid.run inp euid g s) (A.step root inp g .checkUid) := by
  simp only [MenuEntry.run, Managed.step, throttlingIoctl, queryIoctl, henv.copyFromUser,
    Bool.true_eq_false, if_false, readCheckUid, h.uids.check, decide_checkKey,
    copyOut_of_copies henv.copyToUser ((UserWrite.length_checkUid _).trans_lt (by decide))]
  exact ⟨by rintro _ ⟨⟩; rfl, rfl, h⟩

theorem checkProg_shows (h : s.Serves T A) {inp : Round} (henv : inp.env.1.Succeeds) (euid : UInt32)
    (root : Bool) (g : Interface)
    : Shows T (MenuEntry.checkProg.run inp euid g s) (A.step root inp g .checkProg) := by
  simp only [MenuEntry.run, Managed.step, throttlingIoctl, queryIoctl, henv.copyFromUser,
    Bool.true_eq_false, if_false, readCheckProg, h.progs.check, Comm.str_terminate, decide_checkKey,
    copyOut_of_copies henv.copyToUser ((UserWrite.length_checkProg _).trans_lt (by decide))]
  exact ⟨by rintro _ ⟨⟩; rfl, rfl, h⟩

theorem syscallStats_shows (h : s.Serves T A) {inp : Round} (henv : inp.env.1.Succeeds)
    (euid : UInt32) (root : Bool) (g : Interface)
    : Shows T (MenuEntry.syscallStats.run inp euid g s) (A.step root inp g .syscallStats) := by
  unfold Managed.step
  rcases syscallNr?_cases (K := K) (inp.number.getD 0) with ⟨i, hi, hrange, hsome⟩ | ⟨hrange, hnone⟩
  . simp only [hsome]
    refine ⟨?_, rfl, h.query euid rfl⟩
    intro m hm
    split at hm
    . cases hm
    . next hout =>
      cases hm
      have hlookup : s.sys.lookup i = none := by
        rw [h.sys.lookup_eq_none, h.hooks]
        exact hout
      rw [hi] at hrange
      simp only [MenuEntry.run, throttlingIoctl, queryIoctl, henv.copyFromUser, Bool.true_eq_false,
        if_false,
        hrange, getSyscallStats, henv.kmalloc, Heap.kmalloc_eq _ _ (show (40 : Nat) ≠ 0 by decide)
        (show 40 < 2 ^ 63 by decide), if_true, hi, arrayIndexNospec_coe, hlookup]
      rfl
  . simp only [hnone, MenuEntry.run, throttlingIoctl, queryIoctl, henv.copyFromUser,
      Bool.true_eq_false, if_false, hrange, if_true]
    exact ⟨by rintro _ ⟨⟩; rfl, rfl, h⟩

theorem getLenght_eq_count (h : s.Serves T A) (selector : Int)
    : getLenght selector s = A.count selector := by
  unfold getLenght Managed.count
  rw [h.uids.len, h.progs.len, h.sys.len, h.hooks]

theorem number_shows (h : s.Serves T A) {inp : Round} (henv : inp.env.1.Succeeds) (euid : UInt32)
    (root : Bool) (g : Interface)
    : Shows T (MenuEntry.number.run inp euid g s) (A.step root inp g .number) := by
  have hput : inp.env.1.copied 0 4 = 4 := Env.copied_eq (henv.copyToUser 0 4) (by decide)
  simp only [MenuEntry.run, Managed.step, throttlingIoctl, queryIoctl, henv.copyFromUser,
    Bool.true_eq_false, if_false, hput, if_true, getLenght_eq_count h]
  split
  . exact ⟨by rintro _ ⟨⟩; rfl, rfl, h⟩
  . split
    . exact ⟨by rintro _ ⟨⟩; rfl, rfl, h⟩
    . exact ⟨by rintro _ ⟨⟩; rfl, rfl, h⟩

theorem listing_shows (h : s.Serves T A) (inp : Round) (euid : UInt32) (root : Bool) (g : Interface)
    (kind : Kind)
    : Shows T ((MenuEntry.list kind).run inp euid g s) (A.step root inp g (.list kind)) := by
  have hnumber : (throttlingIoctl inp.env.1 euid (.getNumber kind.selector) s).state.Serves T A :=
    h.query euid rfl
  refine ⟨nofun, rfl, ?_⟩
  simp only [MenuEntry.run, listingState]
  split
  . exact hnumber
  . cases kind <;> exact hnumber.query euid rfl

theorem run_shows (h : s.Serves T A) {inp : Round} (henv : inp.env.1.Succeeds) (euid : UInt32)
    (g : Interface) (entry : MenuEntry)
    : Shows T (entry.run inp euid g s) (A.step (euid = 0) inp g entry) := by
  cases entry with
  | registerSyscall =>
    apply guarded_shows h
    exact issue_shows h (registerSyscall_answers h henv _) rfl (by decide) (fun _ => by decide)
  | deregisterSyscall =>
    apply guarded_shows h
    exact issue_shows h (deregisterSyscall_answers h henv _) rfl (by decide) (fun _ => by decide)
  | registerUid =>
    apply guarded_shows h
    exact issue_shows h (registerUid_answers h henv _) rfl (by decide) nofun
  | deregisterUid =>
    apply guarded_shows h
    exact issue_shows h (deregisterUid_answers h henv _) rfl (by decide) nofun
  | registerProg => exact issue_shows h (registerProg_answers h henv _) rfl (by decide) nofun
  | deregisterProg => exact issue_shows h (deregisterProg_answers h henv _) rfl (by decide) nofun
  | setMax => exact issue_shows h (setMax_answers h henv _) rfl (by decide) nofun
  | monitorOn => exact issue_shows h (monitorOn_answers h) rfl (by decide) nofun
  | monitorOff => exact issue_shows h (monitorOff_answers h) rfl (by decide) nofun
  | threadStats => exact ⟨nofun, rfl, h.query euid rfl⟩
  | syscallStats => exact syscallStats_shows h henv euid _ g
  | checkSyscall => exact checkSyscall_shows h henv euid _ g
  | checkUid => exact checkUid_shows h henv euid _ g
  | checkProg => exact checkProg_shows h henv euid _ g
  | number => exact number_shows h henv euid _ g
  | list kind => exact listing_shows h inp euid _ g kind

theorem State.Serves.tick (h : s.Serves T A) (d : Nat)
    : ({ s with mon := { s.mon with jiffies := s.mon.jiffies + d } } : State K).Serves T A :=
  ⟨h.sys, h.hooks, h.uids, h.progs, h.on, h.max⟩

theorem State.Serves.timer (h : s.Serves T A)
    : ({ s with mon := s.mon.runTimer K } : State K).Serves T A := by
  obtain ⟨hon, hmax⟩ := s.mon.runTimer_settings (K := K)
  exact ⟨h.sys, h.hooks, h.uids, h.progs, hon.trans h.on, hmax.trans h.max⟩

theorem State.Serves.session (h : s.Serves T A) (euid : UInt32) (g : Interface) {turns : List Turn}
    (henv : ∀ inp, .round inp ∈ turns → inp.env.1.Succeeds)
    : List.Forall₂ (fun (m : Message) (o : Option Message) => ∀ x, o = some x → m = x)
          (session euid g s turns).1 (A.session (euid = 0) g turns).1
        ∧ (session euid g s turns).2.Serves T (A.session (euid = 0) g turns).2 := by
  induction turns generalizing s A g with
  | nil => exact ⟨.nil, h⟩
  | cons turn turns ih =>
    have hrest : ∀ inp, .round inp ∈ turns → inp.env.1.Succeeds :=
      fun inp hinp => henv inp (List.mem_cons_of_mem _ hinp)
    cases turn with
    | tick d => exact ih (h.tick d) g hrest
    | timer => exact ih h.timer g hrest
    | round inp =>
      unfold Throttling.session Managed.session
      cases inp.choice with
      | none => exact ih h g hrest
      | some choice =>
        dsimp only
        by_cases h0 : choice = 0
        . rw [if_pos h0, if_pos h0]
          exact ⟨.cons (by rintro _ ⟨⟩; rfl) .nil, h⟩
        . rw [if_neg h0, if_neg h0]
          cases MenuEntry.ofChoice choice with
          | none =>
            obtain ⟨hmessages, hserves⟩ := ih h g hrest
            exact ⟨.cons (by rintro _ ⟨⟩; rfl) hmessages, hserves⟩
          | some entry =>
            have hshows := run_shows h (henv inp List.mem_cons_self) euid g entry
            obtain ⟨hmessages, hserves⟩ := ih hshows.serves (entry.run inp euid g s).2.1 hrest
            rw [hshows.interface] at hmessages hserves
            dsimp only
            rw [hshows.interface]
            exact ⟨.cons hshows.message hmessages, hserves⟩

end Answers

/--
Whoever runs the interface on a freshly loaded module, and whatever is typed, reads what an
administrator with a list of the registered would say, if the kernel grants the memory and the
copies. `none` is said of the statistics and the listings, which the list does not determine.
-/
theorem session_shows (T : SyscallTable K) (stats : Ptr → SyscallStats) (now : Nat) (euid : UInt32)
    (g : Interface) (turns : List Turn) (henv : ∀ inp, .round inp ∈ turns → inp.env.1.Succeeds)
    : List.Forall₂ (fun (m : Message) (o : Option Message) => ∀ x, o = some x → m = x)
          (session euid g (State.loaded K T stats now) turns).1
          ((Managed.initial K).session (euid = 0) g turns).1
        ∧ (session euid g (State.loaded K T stats now) turns).2.Serves T
          ((Managed.initial K).session (euid = 0) g turns).2 := by
  have h : (State.loaded K T stats now).Serves T (.initial K) := by
    constructor
    . exact .initial T stats now
    . exact HashTable.keys_empty
    . exact (State.represents_loaded T stats now).uids
    . exact (State.represents_loaded T stats now).progs
    . rfl
    . rfl
  exact h.session euid g henv

def sampleRound (choice number : Int) : Turn :=
  .round
    { choice := some choice
      number := some number
      word := none
      env := (Env.sample, Env.sample)
      malloc := 1 }

/-- The limit -1 is refused. The uid 2000 is refused for it, until another number is typed. -/
def sampleTurns : List Turn :=
  [sampleRound 2 1000, sampleRound 7 (-1), sampleRound 2 2000, sampleRound 1 83, sampleRound 2 2000,
    sampleRound 13 1000, sampleRound 0 0]

theorem session_shows_sample
    : List.Forall₂ (fun (m : Message) (o : Option Message) => ∀ x, o = some x → m = x)
          (session 0 ⟨0, 0, Comm.ofBytes []⟩
            (State.loaded Platform.sample SyscallTable.sample (fun _ => .zero) 0) sampleTurns).1
          [some (.registered (.uid 1000)), some .invalidMax, some .invalid,
            some (.registered (.syscall 83)), some (.registered (.uid 2000)),
            some (.checked (.uid 1000) true), some .closed]
        ∧ (session 0 ⟨0, 0, Comm.ofBytes []⟩
            (State.loaded Platform.sample SyscallTable.sample (fun _ => .zero) 0)
            sampleTurns).2.Serves SyscallTable.sample
          ((Managed.initial Platform.sample).session true ⟨0, 0, Comm.ofBytes []⟩
            sampleTurns).2 := by
  apply session_shows SyscallTable.sample (fun _ => .zero) 0 0 ⟨0, 0, Comm.ofBytes []⟩ sampleTurns
  intro inp hinp
  simp only [sampleTurns, sampleRound, List.mem_cons, Turn.round.injEq, List.not_mem_nil, or_false]
    at hinp
  rcases hinp with rfl | rfl | rfl | rfl | rfl | rfl | rfl <;> exact Env.succeeds_sample

section Unprivileged

variable {s s' s'' : State K} {env : Env} {euid : UInt32}

structure SameSettings (s s' : State K) : Prop where
  sys : s'.sys = s.sys
  uids : s'.uids = s.uids
  progs : s'.progs = s.progs
  on : s'.mon.isMonitorActive = s.mon.isMonitorActive
  max : s'.mon.maxSyscallsPerSec = s.mon.maxSyscallsPerSec

theorem SameSettings.refl (s : State K) : SameSettings s s :=
  ⟨rfl, rfl, rfl, rfl, rfl⟩

theorem SameSettings.trans (h : SameSettings s s') (h' : SameSettings s' s'')
    : SameSettings s s'' where
  sys := h'.sys.trans h.sys
  uids := h'.uids.trans h.uids
  progs := h'.progs.trans h.progs
  on := h'.on.trans h.on
  max := h'.max.trans h.max

theorem ioctl_sameSettings (heuid : euid ≠ 0) (env : Env) (cmd : Cmd) (s : State K)
    : SameSettings s (throttlingIoctl env euid cmd s).state := by
  unfold throttlingIoctl
  split
  . next r hr =>
    obtain ⟨heap, hs⟩ := queryIoctl_sameButHeap hr
    rw [hs]
    exact ⟨rfl, rfl, rfl, rfl, rfl⟩
  . rw [if_pos heuid]
    exact .refl s

theorem run_sameSettings (heuid : euid ≠ 0) (inp : Round) (g : Interface) (s : State K)
    (entry : MenuEntry)
    : SameSettings s (entry.run inp euid g s).2.2 := by
  cases entry with
  | list kind =>
    simp only [MenuEntry.run, listingState]
    split
    . apply ioctl_sameSettings heuid
    . exact (ioctl_sameSettings heuid _ _ s).trans (ioctl_sameSettings heuid _ _ _)
  | number =>
    simp only [MenuEntry.run]
    split
    . exact .refl s
    . apply ioctl_sameSettings heuid
  | registerSyscall | deregisterSyscall | registerUid | deregisterUid =>
    simp only [MenuEntry.run, MenuEntry.guarded]
    split
    . exact .refl s
    . apply ioctl_sameSettings heuid
  | _ => apply ioctl_sameSettings heuid

/-- Whatever a user who is not root types, and however the kernel answers, no registry changes. -/
theorem session_sameSettings (heuid : euid ≠ 0) (g : Interface) (s : State K) (turns : List Turn)
    : SameSettings s (session euid g s turns).2 := by
  induction turns generalizing g s with
  | nil => exact .refl s
  | cons turn turns ih =>
    cases turn with
    | tick d =>
      apply SameSettings.trans _ (ih g _)
      exact ⟨rfl, rfl, rfl, rfl, rfl⟩
    | timer =>
      apply SameSettings.trans _ (ih g _)
      obtain ⟨hon, hmax⟩ := s.mon.runTimer_settings (K := K)
      exact ⟨rfl, rfl, rfl, hon, hmax⟩
    | round inp =>
      unfold session
      cases inp.choice with
      | none => exact ih g s
      | some choice =>
        dsimp only
        split
        . exact .refl s
        . cases MenuEntry.ofChoice choice with
          | none => exact ih g s
          | some entry => exact (run_sameSettings heuid inp g s entry).trans (ih _ _)

theorem session_sameSettings_sample
    : SameSettings (State.loaded Platform.sample SyscallTable.sample (fun _ => .zero) 0)
        (session 1000 ⟨0, 0, Comm.ofBytes []⟩
          (State.loaded Platform.sample SyscallTable.sample (fun _ => .zero) 0) sampleTurns).2 :=
  session_sameSettings (by decide) _ _ _

end Unprivileged

end Throttling

import SyscallThrottling.Lemmas.Ioctl

/-!
This module contains who may change the state of the module with an ioctl, and that a command which
fails changes nothing but the heap.
-/

namespace Throttling

open SyscallRegistry

variable {K : Platform} {env : Env} {s : State K}

def Cmd.isQuery : Cmd → Bool
  | .getThreadStats _ => true
  | .getSyscallStats _ => true
  | .checkSyscall _ => true
  | .checkUid _ => true
  | .checkProg _ => true
  | .getNumber _ => true
  | .getAllSyscalls _ => true
  | .getAllUids _ => true
  | .getAllProgs _ => true
  | _ => false

theorem isSome_queryIoctl (env : Env) (s : State K) (cmd : Cmd)
    : (queryIoctl env s cmd).isSome = cmd.isQuery := by
  cases cmd <;> rfl

section Failure

theorem registerSystemCall_failed {n : Fin K.nrSyscalls}
    (h : (registerSystemCall env (n : Nat) s).1 < 0)
    : SameButHeap s (registerSystemCall env (n : Nat) s).2 := by
  have hsys : (registerSystemCall env (n : Nat) s).2.sys = s.sys := by
    rcases registerSystemCall_cases env n s with ⟨_, _, hs⟩ | ⟨_, _, _, _, hs⟩ | ⟨_, _, _, h0, _⟩
    . exact hs
    . exact hs
    . omega
  obtain ⟨sys, heap, heq⟩ := registerSystemCall_frame env n s
  rw [heq] at hsys ⊢
  exact ⟨heap, by rw [← hsys]⟩

theorem deregisterSystemCall_failed {n : Fin K.nrSyscalls}
    (h : (deregisterSystemCall (n : Nat) s).1 < 0)
    : SameButHeap s (deregisterSystemCall (n : Nat) s).2 := by
  have hsys : (deregisterSystemCall (n : Nat) s).2.sys = s.sys := by
    rcases deregisterSystemCall_cases n s with ⟨_, _, hs⟩ | ⟨_, _, _, hs⟩ | ⟨_, h0, _⟩
    . exact hs
    . exact hs
    . omega
  obtain ⟨sys, heap, heq⟩ := deregisterSystemCall_frame n s
  rw [heq] at hsys ⊢
  exact ⟨heap, by rw [← hsys]⟩

theorem registerUserId_failed {uid : UInt32} (h : (registerUserId env uid s).1 < 0)
    : SameButHeap s (registerUserId env uid s).2 := by
  have huids := registerUserId_unchanged (Int.ne_of_lt h)
  obtain ⟨uids, heap, heq⟩ := registerUserId_frame env uid s
  rw [heq] at huids ⊢
  exact ⟨heap, by rw [← huids]⟩

theorem deregisterUserId_failed {uid : UInt32} (h : (deregisterUserId uid s).1 < 0)
    : SameButHeap s (deregisterUserId uid s).2 := by
  have huids := deregisterUserId_unchanged (Int.ne_of_lt h)
  obtain ⟨uids, heap, heq⟩ := deregisterUserId_frame uid s
  rw [heq] at huids ⊢
  exact ⟨heap, by rw [← huids]⟩

theorem registerProgName_failed {name : Comm} (h : (registerProgName env name s).1 < 0)
    : SameButHeap s (registerProgName env name s).2 := by
  have hprogs := registerProgName_unchanged (Int.ne_of_lt h)
  obtain ⟨progs, heap, heq⟩ := registerProgName_frame env name s
  rw [heq] at hprogs ⊢
  exact ⟨heap, by rw [← hprogs]⟩

theorem deregisterProgName_failed {name : Comm} (h : (deregisterProgName name s).1 < 0)
    : SameButHeap s (deregisterProgName name s).2 := by
  have hprogs := deregisterProgName_unchanged (Int.ne_of_lt h)
  obtain ⟨progs, heap, heq⟩ := deregisterProgName_frame name s
  rw [heq] at hprogs ⊢
  exact ⟨heap, by rw [← hprogs]⟩

theorem ofMonitor_failed {r : Int × Monitor} (hr : r.1 < 0 → r.2 = s.mon)
    (h : (IoctlResult.ofMonitor s r).ret < 0)
    : SameButHeap s (IoctlResult.ofMonitor s r).state := by
  refine ⟨s.heap, ?_⟩
  rw [IoctlResult.ofMonitor, hr h]

theorem rootIoctl_failed (env : Env) (s : State K) (cmd : Cmd)
    : (rootIoctl env s cmd).ret < 0 → SameButHeap s (rootIoctl env s cmd).state := by
  cases cmd <;> dsimp only [rootIoctl] <;> try exact fun _ => .refl s
  case registerSyscall arg =>
    split
    . exact fun _ => .refl s
    . split
      . exact fun _ => .refl s
      . next hrange =>
        obtain ⟨n, rfl⟩ := exists_fin_of_range hrange
        exact registerSystemCall_failed
  case deregisterSyscall arg =>
    split
    . exact fun _ => .refl s
    . split
      . exact fun _ => .refl s
      . next hrange =>
        obtain ⟨n, rfl⟩ := exists_fin_of_range hrange
        exact deregisterSystemCall_failed
  case registerUid uid =>
    split
    . exact fun _ => .refl s
    . exact registerUserId_failed
  case deregisterUid uid =>
    split
    . exact fun _ => .refl s
    . exact deregisterUserId_failed
  case registerProg name =>
    split
    . exact fun _ => .refl s
    . exact registerProgName_failed
  case deregisterProg name =>
    split
    . exact fun _ => .refl s
    . exact deregisterProgName_failed
  case setMaxCalls newMax =>
    split
    . exact fun _ => .refl s
    . apply ofMonitor_failed
      unfold Monitor.setMaxSyscall
      split
      . exact fun _ => rfl
      . simp
  case monitorOn =>
    apply ofMonitor_failed
    unfold Monitor.switchOnMonitor
    split
    . simp
    . exact fun _ => rfl
  case monitorOff =>
    apply ofMonitor_failed
    unfold Monitor.switchOffMonitor
    split
    . simp
    . exact fun _ => rfl

end Failure

/-- Only root changes the state, and only with a command that succeeds and is no query. -/
theorem ioctl_changes_only_for_root (env : Env) (euid : UInt32) (cmd : Cmd) (s : State K)
    : let r := throttlingIoctl env euid cmd s
      (euid ≠ 0 ∨ r.ret < 0 ∨ cmd.isQuery = true → ∃ heap, r.state = { s with heap })
        ∧ (euid ≠ 0 → cmd.isQuery = false → r.ret = -EPERM) := by
  have hquery := isSome_queryIoctl env s cmd
  unfold throttlingIoctl
  cases hq : queryIoctl env s cmd with
  | some r =>
    rw [hq] at hquery
    refine ⟨fun _ => queryIoctl_sameButHeap hq, ?_⟩
    simp [← hquery]
  | none =>
    rw [hq] at hquery
    by_cases heuid : euid = 0
    . simp only [heuid, ne_eq, not_true_eq_false, if_false, false_or, false_implies, and_true]
      intro h
      rcases h with h | h
      . exact rootIoctl_failed env s cmd h
      . simp [h] at hquery
    . simp only [if_pos heuid]
      exact ⟨fun _ => SameButHeap.refl s, fun _ _ => rfl⟩

end Throttling

import SyscallThrottling.Lemmas.Unload

/-!
This module contains what a load of the module that fails leaves in the kernel.
-/

namespace Throttling

variable {K : Platform}

def LoadEnv.DeviceFails (env : LoadEnv) : Prop :=
  env.registerChrdev < 0 ∨ (∃ e, e ≠ 0 ∧ env.classCreate = .error e)
    ∨ ((∃ u, env.classCreate = .ok u) ∧ ∃ e, e ≠ 0 ∧ env.deviceCreate = .error e)

theorem Device.init_ne_zero_iff (env : LoadEnv)
    : (Device.init env .none).1 ≠ 0 ↔ env.DeviceFails := by
  unfold Device.init LoadEnv.DeviceFails
  by_cases hmajor : env.registerChrdev < 0
  . rw [if_pos hmajor]
    simp only [hmajor, true_or, iff_true]
    omega
  . rw [if_neg hmajor]
    cases env.classCreate with
    | error e => simp [hmajor]
    | ok u => cases env.deviceCreate <;> simp [hmajor]

theorem Device.init_failed {env : LoadEnv} (h : (Device.init env .none).1 ≠ 0)
    : (Device.init env .none).2 = .none := by
  unfold Device.init at h ⊢
  by_cases hmajor : env.registerChrdev < 0
  . rw [if_pos hmajor]
  . rw [if_neg hmajor] at h ⊢
    cases hclass : env.classCreate with
    | error e => rfl
    | ok u =>
      cases hdev : env.deviceCreate with
      | error e => rfl
      | ok u => simp [hclass, hdev] at h

namespace Module

theorem readText_patchText (text : Nat → UInt8) (dst : Nat) (inst : Inst)
    : readText (patchText text dst inst) dst = inst := by
  ext i hi
  have hlt : i < instLen := hi
  simp [readText, patchText, hlt]

theorem patchText_eq_self_iff (text : Nat → UInt8) (dst : Nat) (inst : Inst)
    : patchText text dst inst = text ↔ readText text dst = inst := by
  constructor
  . intro h
    rw [← h, readText_patchText]
  . intro h
    have hback := patchText_readText text dst (readText text dst)
    rw [h] at hback
    funext a
    rw [← hback]
    unfold patchText
    split <;> rfl

structure Untouched (text : Nat → UInt8) (T : SyscallTable K) (m : Module K) : Prop where
  text : m.text = text
  table : m.state.sys.hackedSyscallTbl = T.entry
  dev : m.dev = .none
  timer : m.state.mon.epochTimer = none

/--
A load that fails undoes what it has done, except for the jump over the dispatcher, which is written
before the device is registered.
-/
theorem failed_load_iff (env : LoadEnv) (call : Nat) (text : Nat → UInt8) (T : SyscallTable K)
    (stats : Ptr → SyscallStats) (now : Nat)
    : let r := (initial text T stats now).initModule env call
      (r.1 ≠ 0 → Untouched text T r.2)
        ↔ ∀ addr, env.tableFound = true → env.kprobe = some addr → env.DeviceFails →
          readText text addr = jumpTo call addr := by
  have hinit : Untouched text T (initial text T stats now) := ⟨rfl, rfl, rfl, rfl⟩
  unfold initModule initSystemCallTable
  by_cases htable : env.tableFound = false
  . rw [if_pos htable]
    simp [htable, hinit]
  . rw [if_neg htable]
    have htable : env.tableFound = true := by simpa using htable
    cases hprobe : env.kprobe with
    | none => simp [hinit]
    | some addr =>
      have hret := Device.init_ne_zero_iff env
      have hdev := @Device.init_failed env
      simp only [Option.some.injEq, htable, true_implies, forall_eq']
      obtain ⟨ret, dev, heq⟩ : ∃ ret dev, Device.init env .none = (ret, dev) := ⟨_, _, rfl⟩
      rw [heq] at hret hdev
      simp only [initial, heq, ← hret]
      by_cases h0 : ret = 0
      . simp [h0, Monitor.coreSetup]
      . have hdev : dev = .none := hdev h0
        rw [if_neg (by simp), if_pos h0]
        simp only [ne_eq, h0, not_false_eq_true, true_implies, ← patchText_eq_self_iff]
        constructor
        . intro h
          exact (h (by decide)).text
        . intro h _
          exact ⟨h, rfl, hdev, rfl⟩

theorem failed_load_leaves_jump
    : let env : LoadEnv :=
        { tableFound := true
          kprobe := some 0x2000
          registerChrdev := 240
          classCreate := .ok ()
          deviceCreate := .error (-ENOMEM) }
      let r := (initial (fun _ => 0x90) SyscallTable.sample (fun _ => .zero) 0).initModule env 0x9000
      r.1 = -1 ∧ r.2.text 0x2000 = 0xE9
        ∧ ¬(r.1 ≠ 0 → Untouched (fun _ => 0x90) SyscallTable.sample r.2) := by
  intro env r
  have hjump : r.2.text 0x2000 = 0xE9 := by decide
  refine ⟨by decide, hjump, ?_⟩
  intro h
  have htext := (h (by decide)).text
  rw [htext] at hjump
  exact absurd hjump (by decide)

end Module

end Throttling

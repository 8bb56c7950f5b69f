import SyscallThrottling.Impl.Dispatch
import SyscallThrottling.Lemmas.Finder
import SyscallThrottling.Lemmas.Load

/-!
This module contains the way of a system call while the module is loaded: the patched dispatcher
leads to the syscall table, and there to the wrapper or to the handler of the kernel. It also
contains when a load succeeds.
-/

namespace Throttling

variable {K : Platform}

section Jump

variable {text : Nat → UInt8} {addr : Nat} {b₀ b₁ b₂ b₃ : UInt8}

def displacement (callAddr addr : Nat) : Int :=
  toInt ((callAddr : Int) - addr - instLen)

theorem toInt_ofInt (x : Int) : toInt ((UInt32.ofInt x).toNat : Nat) = toInt x := by
  have hx : ((UInt32.ofInt x).toNat : Int) = x % (2 ^ 32 : Nat) := by
    rw [UInt32.ofInt, UInt32.toNat_ofNat']
    omega
  rw [toInt, hx, Int.emod_bmod, toInt]

theorem jumpTarget_patchText (text : Nat → UInt8) (addr : Nat)
    : jumpTarget (Module.patchText text addr #v[0xE9, b₀, b₁, b₂, b₃]) addr
        = some (toSize (addr + instLen + toInt (Word.ofBytes [b₀, b₁, b₂, b₃]))) := by
  simp [jumpTarget, Module.patchText, instLen]

theorem jumpTarget_jumpTo (text : Nat → UInt8) (callAddr addr : Nat)
    : jumpTarget (Module.patchText text addr (Module.jumpTo callAddr addr)) addr
        = some (toSize (addr + instLen + displacement callAddr addr)) := by
  unfold Module.jumpTo
  dsimp only
  rw [jumpTarget_patchText, Word.ofBytes_toUInt8, toInt_ofInt, displacement]

/-- An `int` can hold the distance to `call`, as 64-bit pointers differ. -/
def InReach (callAddr addr : Nat) : Prop :=
  -2 ^ 31 ≤ ((callAddr : Int) - addr - instLen).bmod (2 ^ 64)
    ∧ ((callAddr : Int) - addr - instLen).bmod (2 ^ 64) < 2 ^ 31

theorem toSize_add_bmod_iff (a d : Int) {c : Nat} (hc : c < 2 ^ 64) (hd : d = c - a)
    : toSize (a + d.bmod (2 ^ 32)) = c
        ↔ -2 ^ 31 ≤ d.bmod (2 ^ 64) ∧ d.bmod (2 ^ 64) < 2 ^ 31 := by
  unfold toSize
  rw [Int.bmod_def, Int.bmod_def]
  split <;> split <;> omega

theorem jump_lands_iff (text : Nat → UInt8) {callAddr : Nat} (hcall : callAddr < 2 ^ 64)
    (addr : Nat)
    : jumpTarget (Module.patchText text addr (Module.jumpTo callAddr addr)) addr = some callAddr
        ↔ InReach callAddr addr := by
  rw [jumpTarget_jumpTo, Option.some.injEq]
  apply toSize_add_bmod_iff _ _ hcall
  omega

end Jump

namespace Module

variable {T : SyscallTable K} {stats : Ptr → SyscallStats} {now : Nat}

def intended (T : SyscallTable K) (r : SyscallRegistry K) (nr : Fin K.nrSyscalls) : Handler :=
  if r.syscallArray nr = 0 then T.entry nr else .throttlingWrapper

theorem tbl_eq_intended {r : SyscallRegistry K} (h : SyscallRegistry.Consistent T r)
    (nr : Fin K.nrSyscalls) : r.hackedSyscallTbl nr = intended T r nr := by
  unfold intended
  rcases h.settled nr with ⟨_, harr, htbl⟩ | ⟨_, harr, htbl⟩
  . rw [harr, htbl, if_neg (by omega)]
  . rw [harr, htbl, if_pos rfl]

/--
While the module is loaded, every system call goes through the patched dispatcher to the wrapper if
it is registered, and to its original handler if not. This takes a `call` that the jump can reach:
the distance is cut to an `int`.
-/
theorem x64SysCall_iff (env : LoadEnv) {callAddr : Nat} (hcall : callAddr < 2 ^ 64)
    (text : Nat → UInt8) (T : SyscallTable K) (stats : Ptr → SyscallStats) (now : Nat)
    (ops : List Op) (h : ((initial text T stats now).initModule env callAddr).1 = 0)
    : let m := ((initial text T stats now).initModule env callAddr).2.run ops
      (∀ nr, m.x64SysCall callAddr nr = some (intended T m.state.sys nr))
        ↔ InReach callAddr m.x64SysCallAddr := by
  intro m
  obtain ⟨htext, _, hstate⟩ := initModule_success h
  have hsys : SyscallRegistry.Consistent T m.state.sys := by
    have hrun : m.state = Op.run (State.loaded K T stats now) ops := by
      rw [← hstate]
      rfl
    rw [hrun]
    exact (Op.invariant_run (.loaded T stats now) ops).sys
  have hjump : jumpTarget m.text m.x64SysCallAddr = some callAddr
      ↔ InReach callAddr m.x64SysCallAddr := by
    change jumpTarget ((initial text T stats now).initModule env callAddr).2.text _ = _ ↔ _
    rw [htext]
    apply jump_lands_iff text hcall
  rw [← hjump]
  unfold x64SysCall call
  constructor
  . intro hall
    by_contra hjump
    have hnr := hall ⟨0, K.nrSyscalls_pos⟩
    rw [if_neg hjump] at hnr
    cases hnr
  . intro hjump nr
    rw [if_pos hjump, tbl_eq_intended hsys]

theorem x64SysCall_sample
    : let m := (sampleLoad fun _ => 0x90).2.run [.ioctl Env.sample 0 (.registerSyscall 83)]
      (∀ nr, m.x64SysCall 0x9000 nr = some (intended SyscallTable.sample m.state.sys nr))
        ↔ InReach 0x9000 m.x64SysCallAddr :=
  x64SysCall_iff _ (by decide) _ _ _ _ _ (by decide)

theorem initModule_eq_zero_iff (env : LoadEnv) (callAddr : Nat) (text : Nat → UInt8)
    (T : SyscallTable K) (stats : Ptr → SyscallStats) (now : Nat)
    : ((initial text T stats now).initModule env callAddr).1 = 0
        ↔ env.tableFound = true ∧ env.kprobe.isSome ∧ ¬env.DeviceFails := by
  unfold initModule initSystemCallTable
  cases htable : env.tableFound with
  | false => simp
  | true =>
    cases hprobe : env.kprobe with
    | none => simp
    | some addr =>
      have hret := Device.init_ne_zero_iff env
      rw [if_neg (by decide)]
      dsimp only [initial]
      generalize Device.init env Device.none = d at hret ⊢
      rw [← hret]
      by_cases h0 : d.1 = 0
      . simp [h0, Monitor.coreSetup]
      . simp [h0]

/-- The search looks for the syscall table in the range of addresses from `START` to `MAX_ADDR`. -/
def TableAt (sp : Space) (a : Nat) : Prop :=
  START.toNat ≤ a ∧ a < MAX_ADDR.toNat ∧ sp.LooksLikeTable a

theorem load_eq {sp : Space} {g : Usctm} (h : sp.syscallTableFinder .initial = some g)
    (env : LoadEnv) (callAddr : Nat) (m : Module K)
    : m.load sp env callAddr
        = some (g, m.initModule { env with tableFound := g.hackedSyscallTbl ≠ 0 } callAddr) := by
  rw [load, h]
  rfl

/--
A load never runs into a page fault. It succeeds if and only if there is an address that looks like
the syscall table, the kprobe can be set and the device can be registered; and then the table it
works on is the first such address.
-/
theorem load_iff (sp : Space) (hreg : sp.RegularFrom) (hfit : sp.FitsInt) (env : LoadEnv)
    (callAddr : Nat) (text : Nat → UInt8) (T : SyscallTable K) (stats : Ptr → SyscallStats)
    (now : Nat)
    : ∃ g r, (initial text T stats now).load sp env callAddr = some (g, r)
        ∧ (r.1 = 0 ↔ (∃ a, TableAt sp a) ∧ env.kprobe.isSome ∧ ¬env.DeviceFails)
        ∧ (r.1 = 0 → IsLeast {a | TableAt sp a} g.hackedSyscallTbl.toNat) := by
  have hcount : START.toNat + 4096 * ((MAX_ADDR - START) / 4096).toNat = MAX_ADDR.toNat := by decide
  obtain ⟨r, hr, hrun⟩ := Space.syscallTableFinderFrom_spec hreg .initial _ START (by decide)
    (by decide) hcount
  have hfound := hr.first hfit
  refine ⟨_, _, load_eq hrun env callAddr _, ?_⟩
  rw [initModule_eq_zero_iff]
  cases r with
  | none =>
    have hnone : ¬∃ a, TableAt sp a := by
      rintro ⟨a, hlo, hhi, htable⟩
      exact hfound a hlo hhi htable
    simp [hnone, Space.foundAt, Usctm.initial]
  | some a =>
    have hleast : IsLeast {a | TableAt sp a} a := hfound
    have ha : (UInt64.ofNat a).toNat = a := by
      have hmax : MAX_ADDR.toNat < 2 ^ 64 := MAX_ADDR.toNat_lt
      have := hleast.1.2.1
      rw [UInt64.toNat_ofNat', Nat.mod_eq_of_lt (by omega)]
    have hne : UInt64.ofNat a ≠ 0 := by
      intro h0
      have hstart : 0 < START.toNat := by decide
      have := hleast.1.1
      rw [h0] at ha
      simp only [UInt64.toNat_zero] at ha
      omega
    have hex : ∃ a, TableAt sp a := ⟨a, hleast.1⟩
    simp only [Space.foundAt, Usctm.record, hne, ne_eq, not_false_eq_true, decide_true, true_and,
      hex, ha]
    refine ⟨Iff.rfl, ?_⟩
    intro _
    exact hleast

def sampleLoadEnv : LoadEnv where
  tableFound := false
  kprobe := some 0x2000
  registerChrdev := 240
  classCreate := .ok ()
  deviceCreate := .ok ()

theorem load_sample
    : ∃ g r, (initial (fun _ => 0x90) SyscallTable.sample (fun _ => .zero) 0).load Space.sample
        sampleLoadEnv 0x9000 = some (g, r)
          ∧ (r.1 = 0 ↔ (∃ a, TableAt Space.sample a) ∧ sampleLoadEnv.kprobe.isSome
            ∧ ¬sampleLoadEnv.DeviceFails)
          ∧ (r.1 = 0 → IsLeast {a | TableAt Space.sample a} g.hackedSyscallTbl.toNat) :=
  load_iff Space.sample (fun a _ => Space.sample_regular a) Space.sample_fitsInt _ _ _ _ _ _

end Module

end Throttling

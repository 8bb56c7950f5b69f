import SyscallThrottling.Impl.Protect
import SyscallThrottling.Lemmas.Writers
import SyscallThrottling.Lib.Refinement
import SyscallThrottling.Lib.Word

/-!
This module contains the proof that the write protection is only ever off on the CPU of the thread
that holds `write_lock`, that no store in the syscall table and no write of a control register
faults, and that the machine with write protection does exactly what the module does without.
-/

namespace Throttling

open Interleaving

namespace Cpu

/-- CET needs write protection. Where the kernel does not know CET, it is off. -/
structure Valid (hasCet : Bool) (c : Cpu) : Prop where
  wp_of_cet : c.cet = true → c.wp = true
  known : c.cet = true → hasCet = true

def cetOff (c : Cpu) : Cpu :=
  { c with cr4 := c.cr4 &&& ~~~X86_CR4_CET }

def unprotected (c : Cpu) : Cpu :=
  { c.cetOff with cr0 := c.cr0 &&& ~~~X86_CR0_WP }

variable (c : Cpu)

theorem cet_cetOff : c.cetOff.cet = false := by
  simp [cet, cetOff, UInt64.and_assoc]

theorem cet_unprotected : c.unprotected.cet = false := by
  simp [cet, unprotected, cetOff, UInt64.and_assoc]

theorem wp_unprotected : c.unprotected.wp = false := by
  simp [wp, unprotected, UInt64.and_assoc]

variable {c}

theorem cet_eq_true : c.cet = true ↔ c.cr4 &&& X86_CR4_CET ≠ 0 := by
  simp [cet]

theorem cetOff_of_not_cet (h : ¬c.cet = true) : c.cetOff = c := by
  rw [cet_eq_true, not_not] at h
  rw [cetOff, Word.and_not_of_and_eq_zero h]

theorem checked_of_cet (h : c.cet = false) : c.checked = some c := by
  simp [checked, h]

theorem Valid.checked {hasCet : Bool} (h : c.Valid hasCet) : c.checked = some c := by
  apply if_neg
  rintro ⟨hcet, hwp⟩
  rw [h.wp_of_cet hcet] at hwp
  cases hwp

end Cpu

/-- What is true when the thread on CPU `k` is about to do what `pc` says. -/
def HackPc.Expects (o : Cpu) (p : Protection) (k : Nat) : HackPc → Prop
  | .readCr0 => p.cpus k = o
  | .readCr4 => p.cpus k = o ∧ p.cr0 = o.cr0
  | .cetDisable => p.cpus k = o ∧ p.cr0 = o.cr0 ∧ p.cr4 = o.cr4
  | .unprotect => p.cpus k = o.cetOff ∧ p.cr0 = o.cr0 ∧ p.cr4 = o.cr4
  | .body => p.cpus k = o.unprotected ∧ p.cr0 = o.cr0 ∧ p.cr4 = o.cr4
  | .protect => p.cpus k = o.unprotected ∧ p.cr0 = o.cr0 ∧ p.cr4 = o.cr4
  | .cetEnable => p.cpus k = o.cetOff ∧ p.cr0 = o.cr0 ∧ p.cr4 = o.cr4
  | .preemptEnable => p.cpus k = o
  | .fault => False

namespace Protection

variable {p q : Protection} {k : Nat} {o c : Cpu} {hasCet : Bool}

structure Becomes (p q : Protection) (k : Nat) (c : Cpu) : Prop where
  cpu : q.cpus k = c
  others : ∀ k', k' ≠ k → q.cpus k' = p.cpus k'
  cr0 : q.cr0 = p.cr0
  cr4 : q.cr4 = p.cr4

theorem becomes_self (h : p.cpus k = c) : Becomes p p k c where
  cpu := h
  others _ _ := rfl
  cr0 := rfl
  cr4 := rfl

theorem becomes_write {write : Option Cpu} (h : write = some c)
    : ∃ q, write.map (p.setCpu k) = some q ∧ Becomes p q k c := by
  refine ⟨p.setCpu k c, by rw [h]; rfl, ?_⟩
  constructor
  . exact Function.update_self ..
  . intro k' hk'
    exact Function.update_of_ne hk' ..
  . rfl
  . rfl

theorem cet_test (ho : o.Valid hasCet) (h4 : p.cr4 = o.cr4)
    : (hasCet = true ∧ p.cr4 &&& X86_CR4_CET ≠ 0) ↔ o.cet = true := by
  rw [h4, ← Cpu.cet_eq_true]
  exact ⟨And.right, fun h => ⟨ho.known h, h⟩⟩

theorem conditionalCetDisable_eq (ho : o.Valid hasCet) (hcpu : p.cpus k = o) (h4 : p.cr4 = o.cr4)
    : ∃ q, p.conditionalCetDisable k hasCet = some q ∧ Becomes p q k o.cetOff := by
  unfold conditionalCetDisable
  split
  . apply becomes_write
    rw [hcpu, h4]
    exact Cpu.checked_of_cet o.cet_cetOff
  . next hcet =>
    rw [cet_test ho h4] at hcet
    refine ⟨p, rfl, becomes_self ?_⟩
    rw [Cpu.cetOff_of_not_cet hcet]
    exact hcpu

theorem conditionalCetEnable_eq (ho : o.Valid hasCet) (hcpu : p.cpus k = o.cetOff)
    (h4 : p.cr4 = o.cr4)
    : ∃ q, p.conditionalCetEnable k hasCet = some q ∧ Becomes p q k o := by
  unfold conditionalCetEnable
  split
  . apply becomes_write
    rw [hcpu, h4]
    exact ho.checked
  . next hcet =>
    rw [cet_test ho h4] at hcet
    rw [Cpu.cetOff_of_not_cet hcet] at hcpu
    exact ⟨p, rfl, becomes_self hcpu⟩

theorem unprotectMemory_eq (hcpu : p.cpus k = o.cetOff) (h0 : p.cr0 = o.cr0)
    : ∃ q, p.unprotectMemory k = some q ∧ Becomes p q k o.unprotected := by
  apply becomes_write
  rw [hcpu, h0]
  exact Cpu.checked_of_cet o.cet_unprotected

theorem protectMemory_eq (hcpu : p.cpus k = o.unprotected) (h0 : p.cr0 = o.cr0)
    : ∃ q, p.protectMemory k = some q ∧ Becomes p q k o.cetOff := by
  apply becomes_write
  rw [hcpu, h0]
  exact Cpu.checked_of_cet o.cet_cetOff

theorem hack_restores (ho : (p.cpus k).Valid hasCet)
    : ∃ q r, p.beginSyscallTableHack k hasCet = some q ∧ (q.cpus k).wp = false
        ∧ q.endSyscallTableHack k hasCet = some r ∧ r.cpus = p.cpus := by
  obtain ⟨p₁, h₁, hdisable⟩ := conditionalCetDisable_eq (k := k)
    (p := { p with cr0 := (p.cpus k).cr0, cr4 := (p.cpus k).cr4 }) ho rfl rfl
  obtain ⟨q, h₂, hunprotect⟩ := unprotectMemory_eq hdisable.cpu hdisable.cr0
  obtain ⟨q₁, h₃, hprotect⟩ := protectMemory_eq hunprotect.cpu (hunprotect.cr0.trans hdisable.cr0)
  obtain ⟨r, h₄, henable⟩ := conditionalCetEnable_eq ho hprotect.cpu
    (hprotect.cr4.trans (hunprotect.cr4.trans hdisable.cr4))
  refine ⟨q, r, ?_, ?_, ?_, ?_⟩
  . simp only [beginSyscallTableHack, h₁, Option.bind_eq_bind, Option.bind_some, h₂]
  . rw [hunprotect.cpu]
    apply Cpu.wp_unprotected
  . simp only [endSyscallTableHack, h₃, Option.bind_eq_bind, Option.bind_some, h₄]
  . funext k'
    by_cases hk' : k' = k
    . rw [hk', henable.cpu]
    . rw [henable.others k' hk', hprotect.others k' hk', hunprotect.others k' hk',
        hdisable.others k' hk']

end Protection

namespace Thread

variable {K : Platform} {t t' : Thread K}

theorem holds_of_hacking (h : t.hacking = true) : t.holds = true := by
  cases t with
  | register f =>
    simp only [hacking, holds, Register.holds] at h ⊢
    revert h
    cases f.pc <;> simp
  | deregister f =>
    simp only [hacking, holds, Deregister.holds] at h ⊢
    revert h
    cases f.pc <;> simp
  | _ => cases h

theorem holds_of_step {i : Nat} {ch : Choice (Task K)} {s s' : Shared K} {ev : List (Event K)}
    (h : t.step i ch s = some (s', t', ev)) (ht : t.hacking = true) : t'.holds = true := by
  rcases step_cases h with ⟨rfl, _⟩ | ⟨_, _, rfl, _⟩ | ⟨_, _, rfl, _⟩ | ⟨_, _, rfl, _⟩
    | ⟨f, f', rfl, rfl, h', _⟩ | ⟨f, f', rfl, rfl, h', _⟩
  case inr.inr.inr.inr.inl =>
    unfold Register.step at h'
    repeat' split at h'
    all_goals
      first
      | contradiction
      | (cases h'
         simp only [hacking, ‹f.pc = _›, Bool.false_eq_true] at ht
         try rfl)
  case inr.inr.inr.inr.inr =>
    unfold Deregister.step at h'
    repeat' split at h'
    all_goals
      first
      | contradiction
      | (cases h'
         simp only [hacking, ‹f.pc = _›, Bool.false_eq_true] at ht
         try rfl)
  all_goals cases ht

end Thread

variable {K : Platform}

namespace MachineCfg

def module (d : MachineCfg K) : Cfg K :=
  d.map Machine.shared Runner.thread

end MachineCfg

theorem implements (hasCet : Bool)
    : Implements (protectedThrottling K hasCet) (throttling K) Machine.shared Runner.thread where
  env := by
    intro e m m' ev h
    obtain ⟨⟨s, ev'⟩, heq, rfl, rfl⟩ := by
      simpa only [protectedThrottling, Option.map_eq_some_iff, Prod.mk.injEq] using h
    exact .inl ⟨e, heq⟩
  thread := by
    intro i ch m r m' r' ev h
    simp only [protectedThrottling, Runner.step] at h
    repeat' split at h
    all_goals
      first
      | contradiction
      | (obtain ⟨⟨s, t, ev'⟩, heq, hres⟩ := Option.map_eq_some_iff.mp h
         cases hres
         exact .inl ⟨ch.1, heq⟩)
      | (cases h
         exact .inr ⟨rfl, rfl, rfl⟩)
      | (simp only [Runner.proceed] at h
         split at h
         all_goals
           cases h
           exact .inr ⟨rfl, rfl, rfl⟩)

def HackPc.leaving : HackPc → Bool
  | .protect => true
  | .cetEnable => true
  | .preemptEnable => true
  | _ => false

structure Quiet (o : Nat → Cpu) (d : MachineCfg K) : Prop where
  hack : ∀ i, (d.locals i).hack = none
  cpus : ∀ k, d.shared.protection.cpus k = o k

structure InSection (o : Nat → Cpu) (d : MachineCfg K) (i k : Nat) (pc : HackPc) : Prop where
  hack : (d.locals i).hack = some (k, pc)
  holds : (d.locals i).thread.holds = true
  hacking : (d.locals i).thread.hacking = !pc.leaving
  others : ∀ j, j ≠ i → (d.locals j).hack = none
  cpus : ∀ k', k' ≠ k → d.shared.protection.cpus k' = o k'
  expects : pc.Expects (o k) d.shared.protection k

namespace InSection

variable {o : Nat → Cpu} {d : MachineCfg K} {i k : Nat} {pc pc' : HackPc}

theorem update (h : InSection o d i k pc) {m : Machine K} {t : Thread K} {ev : List (Event K)}
    (ht : t.holds = true) (hhacking : t.hacking = !pc'.leaving)
    (hcpus : ∀ k', k' ≠ k → m.protection.cpus k' = d.shared.protection.cpus k')
    (hexpects : pc'.Expects (o k) m.protection k)
    : InSection o ⟨m, Function.update d.locals i ⟨t, some (k, pc')⟩, ev⟩ i k pc' where
  hack := by
    dsimp only
    rw [Function.update_self]
  holds := by
    dsimp only
    rw [Function.update_self]
    exact ht
  hacking := by
    dsimp only
    rw [Function.update_self]
    exact hhacking
  others := by
    intro j hj
    dsimp only
    rw [Function.update_of_ne hj]
    apply h.others j hj
  cpus := by
    intro k' hk'
    rw [hcpus k' hk']
    apply h.cpus k' hk'
  expects := hexpects

variable {hasCet : Bool}

/--
One statement of the two functions: it does not fault, and the next one finds what it expects.
-/
structure Next (hasCet : Bool) (o : Nat → Cpu) (d : MachineCfg K) (i k : Nat)
    (ch : Choice (Task K) × Nat)
    (pc' : HackPc) (d' : MachineCfg K) : Prop where
  step : (protectedThrottling K hasCet).step d (.run i ch) = some d'
  module : d'.module = d.module
  inSection : InSection o d' i k pc'

theorem next (h : InSection o d i k pc) (pc' : HackPc) (ch : Choice (Task K) × Nat) {p : Protection}
    (hstep : Runner.step hasCet i ch d.shared (d.locals i)
      = some ((d.locals i).proceed d.shared k pc' (some p)))
    (hleaving : pc'.leaving = pc.leaving)
    (hcpus : ∀ k', k' ≠ k → p.cpus k' = d.shared.protection.cpus k')
    (hexpects : pc'.Expects (o k) p k) : ∃ d', Next hasCet o d i k ch pc' d' := by
  refine ⟨⟨{ d.shared with protection := p },
    Function.update d.locals i ⟨(d.locals i).thread, some (k, pc')⟩, [] ++ d.trace⟩, ?_, ?_, ?_⟩
  . have hthread : (protectedThrottling K hasCet).thread i ch d.shared (d.locals i) = _ := hstep
    simp only [System.step, hthread, Runner.proceed]
  . unfold MachineCfg.module
    rw [map_update]
    dsimp only
    rw [show (d.locals i).thread = (d.map Machine.shared Runner.thread).locals i from rfl,
      Function.update_eq_self]
    rfl
  . apply h.update h.holds _ hcpus hexpects
    rw [hleaving]
    exact h.hacking

variable (hasCet)

theorem readCr0 (h : InSection o d i k .readCr0) (ch : Choice (Task K) × Nat)
    : ∃ d', Next hasCet o d i k ch .readCr4 d' := by
  have hcpu := h.expects
  apply h.next .readCr4 ch
  . simp only [Runner.step, h.hack]
    rfl
  . rfl
  . exact fun _ _ => rfl
  . exact ⟨hcpu, congrArg Cpu.cr0 hcpu⟩

theorem readCr4 (h : InSection o d i k .readCr4) (ch : Choice (Task K) × Nat)
    : ∃ d', Next hasCet o d i k ch .cetDisable d' := by
  obtain ⟨hcpu, h0⟩ := h.expects
  apply h.next .cetDisable ch
  . simp only [Runner.step, h.hack]
    rfl
  . rfl
  . exact fun _ _ => rfl
  . exact ⟨hcpu, h0, congrArg Cpu.cr4 hcpu⟩

theorem cetDisable (h : InSection o d i k .cetDisable) (ho : (o k).Valid hasCet)
    (ch : Choice (Task K) × Nat) : ∃ d', Next hasCet o d i k ch .unprotect d' := by
  obtain ⟨hcpu, h0, h4⟩ := h.expects
  obtain ⟨q, hq, hbecomes⟩ := Protection.conditionalCetDisable_eq ho hcpu h4
  apply h.next .unprotect ch (p := q)
  . simp only [Runner.step, h.hack, hq]
  . rfl
  . exact hbecomes.others
  . exact ⟨hbecomes.cpu, hbecomes.cr0.trans h0, hbecomes.cr4.trans h4⟩

theorem unprotect (h : InSection o d i k .unprotect) (ch : Choice (Task K) × Nat)
    : ∃ d', Next hasCet o d i k ch .body d' := by
  obtain ⟨hcpu, h0, h4⟩ := h.expects
  obtain ⟨q, hq, hbecomes⟩ := Protection.unprotectMemory_eq hcpu h0
  apply h.next .body ch (p := q)
  . simp only [Runner.step, h.hack, hq]
  . rfl
  . exact hbecomes.others
  . exact ⟨hbecomes.cpu, hbecomes.cr0.trans h0, hbecomes.cr4.trans h4⟩

theorem protect (h : InSection o d i k .protect) (ch : Choice (Task K) × Nat)
    : ∃ d', Next hasCet o d i k ch .cetEnable d' := by
  obtain ⟨hcpu, h0, h4⟩ := h.expects
  obtain ⟨q, hq, hbecomes⟩ := Protection.protectMemory_eq hcpu h0
  apply h.next .cetEnable ch (p := q)
  . simp only [Runner.step, h.hack, hq]
  . rfl
  . exact hbecomes.others
  . exact ⟨hbecomes.cpu, hbecomes.cr0.trans h0, hbecomes.cr4.trans h4⟩

theorem cetEnable (h : InSection o d i k .cetEnable) (ho : (o k).Valid hasCet)
    (ch : Choice (Task K) × Nat) : ∃ d', Next hasCet o d i k ch .preemptEnable d' := by
  obtain ⟨hcpu, h0, h4⟩ := h.expects
  obtain ⟨q, hq, hbecomes⟩ := Protection.conditionalCetEnable_eq ho hcpu h4
  apply h.next .preemptEnable ch (p := q)
  . simp only [Runner.step, h.hack, hq]
  . rfl
  . exact hbecomes.others
  . exact hbecomes.cpu

theorem preemptEnable (h : InSection o d i k .preemptEnable) (ch : Choice (Task K) × Nat)
    : ∃ d' : MachineCfg K, (protectedThrottling K hasCet).step d (.run i ch) = some d'
        ∧ d'.module = d.module ∧ Quiet o d' := by
  refine ⟨⟨d.shared, Function.update d.locals i { d.locals i with hack := none }, [] ++ d.trace⟩,
    ?_, ?_, ?_, ?_⟩
  . have hthread : (protectedThrottling K hasCet).thread i ch d.shared (d.locals i)
        = some (d.shared, { d.locals i with hack := none }, []) := by
      simp only [protectedThrottling, Runner.step, h.hack]
    simp only [System.step, hthread]
  . unfold MachineCfg.module
    rw [map_update]
    dsimp only
    rw [show (d.locals i).thread = (d.map Machine.shared Runner.thread).locals i from rfl,
      Function.update_eq_self]
    rfl
  . intro j
    dsimp only
    by_cases hj : j = i
    . rw [hj, Function.update_self]
    . rw [Function.update_of_ne hj]
      apply h.others j hj
  . intro k'
    by_cases hk' : k' = k
    . rw [hk']
      exact h.expects
    . apply h.cpus k' hk'

theorem body (h : InSection o d i k .body)
    (ch : Choice (Task K) × Nat) {s : Shared K} {t : Thread K}
    {ev : List (Event K)} (hs : (d.locals i).thread.step i ch.1 d.shared.shared = some (s, t, ev))
    : ∃ d' : MachineCfg K, (protectedThrottling K hasCet).step d (.run i ch) = some d'
        ∧ d'.module = ⟨s, Function.update d.module.locals i t, ev ++ d.module.trace⟩
        ∧ InSection o d' i k (if t.hacking then .body else .protect) := by
  have hwp : (d.shared.protection.cpus k).wp = false := by
    rw [h.expects.1]
    apply Cpu.wp_unprotected
  refine ⟨⟨{ d.shared with shared := s },
    Function.update d.locals i ⟨t, some (k, if t.hacking then .body else .protect)⟩, ev ++ d.trace⟩,
    ?_, ?_, ?_⟩
  . have hthread : (protectedThrottling K hasCet).thread i ch d.shared (d.locals i)
        = some ({ d.shared with shared := s },
          ⟨t, some (k, if t.hacking then .body else .protect)⟩, ev) := by
      simp only [protectedThrottling, Runner.step, h.hack, hwp, hs, Bool.false_eq_true, and_false,
        if_false, Option.map_some]
    simp only [System.step, hthread]
  . unfold MachineCfg.module
    rw [map_update]
    rfl
  . apply h.update (Thread.holds_of_step hs h.hacking)
    . split
      . next ht => exact ht
      . next ht => exact eq_false_of_ne_true ht
    . exact fun _ _ => rfl
    . split <;> exact h.expects

end InSection

section Outside

variable {o : Nat → Cpu} {d : MachineCfg K} {i j k : Nat} {pc : HackPc}
  {s : Shared K} {t : Thread K} {ev : List (Event K)}

def MachineCfg.plain (d : MachineCfg K) (j : Nat) (s : Shared K) (t : Thread K)
    (ev : List (Event K)) : MachineCfg K :=
  ⟨{ d.shared with shared := s }, Function.update d.locals j ⟨t, none⟩, ev ++ d.trace⟩

theorem module_plain
    : (d.plain j s t ev).module = ⟨s, Function.update d.module.locals j t, ev ++ d.module.trace⟩ := by
  unfold MachineCfg.module MachineCfg.plain
  rw [map_update]
  rfl

theorem step_plain (hasCet : Bool) (ch : Choice (Task K) × Nat) (hhack : (d.locals j).hack = none)
    (hnot : (d.locals j).thread.hacking = false)
    (hs : (d.locals j).thread.step j ch.1 d.shared.shared = some (s, t, ev))
    : (protectedThrottling K hasCet).step d (.run j ch) = some (d.plain j s t ev) := by
  have hthread : (protectedThrottling K hasCet).thread j ch d.shared (d.locals j)
      = some ({ d.shared with shared := s }, ⟨t, none⟩, ev) := by
    simp only [protectedThrottling, Runner.step, hhack, hnot, hs, Bool.false_eq_true, if_false,
      Option.map_some]
  simp only [System.step, hthread, MachineCfg.plain]

theorem Quiet.plain (h : Quiet o d) : Quiet o (d.plain j s t ev) where
  hack := by
    intro i
    unfold MachineCfg.plain
    dsimp only
    by_cases hi : i = j
    . rw [hi, Function.update_self]
    . rw [Function.update_of_ne hi]
      apply h.hack
  cpus := h.cpus

theorem InSection.plain (h : InSection o d i k pc) (hj : j ≠ i)
    : InSection o (d.plain j s t ev) i k pc := by
  have hi : (d.plain j s t ev).locals i = d.locals i := Function.update_of_ne hj.symm ..
  constructor
  . rw [hi]
    exact h.hack
  . rw [hi]
    exact h.holds
  . rw [hi]
    exact h.hacking
  . intro i' hi'
    unfold MachineCfg.plain
    dsimp only
    by_cases hij : i' = j
    . rw [hij, Function.update_self]
    . rw [Function.update_of_ne hij]
      apply h.others i' hi'
  . exact h.cpus
  . exact h.expects

theorem Quiet.pin (h : Quiet o d) (hasCet : Bool) (hj : (d.locals j).thread.hacking = true)
    (ch : Choice (Task K) × Nat)
    : ∃ d', InSection.Next hasCet o d j ch.2 ch .readCr0 d' := by
  refine ⟨⟨d.shared, Function.update d.locals j ⟨(d.locals j).thread, some (ch.2, .readCr0)⟩,
    [] ++ d.trace⟩, ?_, ?_, ?_⟩
  . have hthread : (protectedThrottling K hasCet).thread j ch d.shared (d.locals j)
        = some (d.shared, ⟨(d.locals j).thread, some (ch.2, .readCr0)⟩, []) := by
      simp only [protectedThrottling, Runner.step, h.hack, hj, if_true]
    simp only [System.step, hthread]
  . unfold MachineCfg.module
    rw [map_update]
    dsimp only
    rw [show (d.locals j).thread = (d.map Machine.shared Runner.thread).locals j from rfl,
      Function.update_eq_self]
    rfl
  . constructor
    . dsimp only
      rw [Function.update_self]
    . dsimp only
      rw [Function.update_self]
      apply Thread.holds_of_hacking hj
    . dsimp only
      rw [Function.update_self]
      exact hj
    . intro i hi
      dsimp only
      rw [Function.update_of_ne hi]
      apply h.hack
    . intro k' _
      apply h.cpus
    . apply h.cpus

end Outside

/-- At most one thread is in the section, and the CPUs of the others are as they were. -/
def Intact (o : Nat → Cpu) (d : MachineCfg K) : Prop :=
  Quiet o d ∨ ∃ i k pc, InSection o d i k pc

namespace Intact

variable {o : Nat → Cpu} {hasCet : Bool} {d d' : MachineCfg K} {T : SyscallTable K}

theorem envStep (h : Intact o d) {e : EnvStep}
    (hs : (protectedThrottling K hasCet).step d (.env e) = some d') : Intact o d' := by
  obtain ⟨m, ev, heq, rfl⟩ := System.step_env hs
  obtain ⟨⟨s, ev'⟩, _, hm⟩ := Option.map_eq_some_iff.mp heq
  cases hm
  rcases h with h | ⟨i, k, pc, h⟩
  . exact .inl ⟨h.hack, h.cpus⟩
  . exact .inr ⟨i, k, pc, h.hack, h.holds, h.hacking, h.others, h.cpus, h.expects⟩

theorem sectionStep (ho : ∀ k, (o k).Valid hasCet) {i k : Nat} {pc : HackPc}
    (h : InSection o d i k pc) {ch : Choice (Task K) × Nat}
    (hs : (protectedThrottling K hasCet).step d (.run i ch) = some d') : Intact o d' := by
  have hnext : ∀ {pc'}, (∃ d₁, InSection.Next hasCet o d i k ch pc' d₁) → Intact o d' := by
    rintro pc' ⟨d₁, hd₁⟩
    obtain rfl := Option.some.inj (hs.symm.trans hd₁.step)
    exact .inr ⟨i, k, pc', hd₁.inSection⟩
  cases pc with
  | readCr0 => exact hnext (h.readCr0 hasCet ch)
  | readCr4 => exact hnext (h.readCr4 hasCet ch)
  | cetDisable => exact hnext (h.cetDisable hasCet (ho k) ch)
  | unprotect => exact hnext (h.unprotect hasCet ch)
  | body =>
    cases hbase : (d.locals i).thread.step i ch.1 d.shared.shared with
    | none =>
      obtain ⟨m, r, ev, heq, _⟩ := System.step_run hs
      have hwp : (d.shared.protection.cpus k).wp = false := by
        rw [h.expects.1]
        apply Cpu.wp_unprotected
      simp [protectedThrottling, Runner.step, h.hack, hwp, hbase] at heq
    | some res =>
      obtain ⟨s, t, ev⟩ := res
      obtain ⟨d₁, hd₁, _, hsection⟩ := h.body hasCet ch hbase
      obtain rfl := Option.some.inj (hs.symm.trans hd₁)
      exact .inr ⟨i, k, _, hsection⟩
  | protect => exact hnext (h.protect hasCet ch)
  | cetEnable => exact hnext (h.cetEnable hasCet (ho k) ch)
  | preemptEnable =>
    obtain ⟨d₁, hd₁, _, hquiet⟩ := h.preemptEnable hasCet ch
    obtain rfl := Option.some.inj (hs.symm.trans hd₁)
    exact .inl hquiet
  | fault => exact h.expects.elim

theorem step (ho : ∀ k, (o k).Valid hasCet) (hr : Reachable K T d.module) (h : Intact o d)
    {l : Label EnvStep (Choice (Task K) × Nat)}
    (hs : (protectedThrottling K hasCet).step d l = some d') : Intact o d' := by
  cases l with
  | env e => exact h.envStep hs
  | run j ch =>
    by_cases hin : ∃ k pc, InSection o d j k pc
    . obtain ⟨k, pc, hin⟩ := hin
      exact sectionStep ho hin hs
    . have hhack : (d.locals j).hack = none := by
        rcases h with h | ⟨i, k, pc, h⟩
        . apply h.hack
        . apply h.others
          rintro rfl
          exact hin ⟨k, pc, h⟩
      by_cases hj : (d.locals j).thread.hacking = true
      . rcases h with h | ⟨i, k, pc, h⟩
        . obtain ⟨d₁, hd₁⟩ := h.pin hasCet hj ch
          obtain rfl := Option.some.inj (hs.symm.trans hd₁.step)
          exact .inr ⟨j, ch.2, .readCr0, hd₁.inSection⟩
        . -- both would hold the lock
          obtain rfl : i = j := eq_of_holds hr h.holds (Thread.holds_of_hacking hj)
          exact absurd ⟨k, pc, h⟩ hin
      . cases hbase : (d.locals j).thread.step j ch.1 d.shared.shared with
        | none =>
          obtain ⟨m, r, ev, heq, _⟩ := System.step_run hs
          simp [protectedThrottling, Runner.step, hhack, hj, hbase] at heq
        | some res =>
          obtain ⟨s, t, ev⟩ := res
          have hplain := step_plain hasCet ch hhack (eq_false_of_ne_true hj) hbase
          obtain rfl := Option.some.inj (hs.symm.trans hplain)
          rcases h with h | ⟨i, k, pc, h⟩
          . exact .inl h.plain
          . refine .inr ⟨i, k, pc, h.plain ?_⟩
            rintro rfl
            exact hin ⟨k, pc, h⟩

end Intact

def MachineReachable (hasCet : Bool) (T : SyscallTable K) (o : Nat → Cpu) (d : MachineCfg K)
    : Prop :=
  ∃ stats now cr0 cr4,
    (protectedThrottling K hasCet).Reaches (loadedMachine K T stats now o cr0 cr4) d

section Machine

variable {hasCet : Bool} {T : SyscallTable K} {o : Nat → Cpu} {c : Cfg K} {d : MachineCfg K}

theorem MachineReachable.module (h : MachineReachable hasCet T o d) : Reachable K T d.module := by
  obtain ⟨stats, now, cr0, cr4, h⟩ := h
  exact ⟨stats, now, (implements hasCet).reaches h⟩

theorem MachineReachable.intact (ho : ∀ k, (o k).Valid hasCet) (h : MachineReachable hasCet T o d)
    : Intact o d := by
  obtain ⟨stats, now, cr0, cr4, h⟩ := h
  have hboth : Reachable K T d.module ∧ Intact o d := by
    apply h.invariant (I := fun d : MachineCfg K => Reachable K T d.module ∧ Intact o d)
    . exact ⟨⟨stats, now, .refl⟩, .inl ⟨fun _ => rfl, fun _ => rfl⟩⟩
    . intro d l d' hI _ hs
      exact ⟨reachable_trans hI.1 ((implements hasCet).step hs), hI.2.step ho hI.1 hs⟩
  exact hboth.2

/--
No store in the syscall table and no write of a control register faults, and a CPU that does not
have the registers it was started with runs the thread that holds `write_lock`.
-/
theorem protection_spec (ho : ∀ k, (o k).Valid hasCet) (h : MachineReachable hasCet T o d)
    : (∀ i k, (d.locals i).hack ≠ some (k, .fault))
      ∧ ∀ k, d.shared.protection.cpus k = o k
        ∨ ∃ i pc, (d.locals i).hack = some (k, pc) ∧ d.shared.shared.writeLock = some i := by
  rcases h.intact ho with hquiet | ⟨i, k, pc, hin⟩
  . refine ⟨?_, fun k => .inl (hquiet.cpus k)⟩
    intro i k
    rw [hquiet.hack]
    exact nofun
  . have hlock : d.shared.shared.writeLock = some i := lock_of_holds h.module hin.holds
    refine ⟨?_, ?_⟩
    . intro j k' hj
      by_cases hji : j = i
      . rw [hji, hin.hack] at hj
        cases hj
        exact hin.expects
      . rw [hin.others j hji] at hj
        cases hj
    . intro k'
      by_cases hk' : k' = k
      . subst hk'
        exact .inr ⟨i, pc, hin.hack, hlock⟩
      . exact .inl (hin.cpus k' hk')

def Cpu.sample : Cpu where
  cr0 := 0x80050033
  cr4 := 0xf72ef0

theorem Cpu.valid_sample : Cpu.sample.Valid true where
  wp_of_cet _ := by decide
  known _ := rfl

/-- Thread 0 registers the system call 83 on CPU 2, up to the store in the table. -/
def sampleHack : List (Label EnvStep (Choice (Task Platform.sample) × Nat)) :=
  .run 0 (.start (.register Env.sample 83), 2) :: List.replicate 9 (.run 0 (.go, 2))

def sampleMachine : MachineCfg Platform.sample :=
  loadedMachine Platform.sample SyscallTable.sample (fun _ => .zero) 0 (fun _ => .sample) 0 0

theorem isSome_sampleHack
    : ((protectedThrottling Platform.sample true).exec (fun _ _ => true) sampleMachine
        sampleHack).isSome := by
  decide

theorem protection_spec_sample
    : ∃ d : MachineCfg Platform.sample,
      MachineReachable true SyscallTable.sample (fun _ => .sample) d
        ∧ (d.locals 0).thread.stores = true ∧ (d.shared.protection.cpus 2).wp = false
        ∧ (∀ i k, (d.locals i).hack ≠ some (k, .fault))
        ∧ ∀ k, d.shared.protection.cpus k = .sample
          ∨ ∃ i pc, (d.locals i).hack = some (k, pc) ∧ d.shared.shared.writeLock = some i := by
  have h : MachineReachable true SyscallTable.sample (fun _ => .sample)
      (((protectedThrottling Platform.sample true).exec (fun _ _ => true) sampleMachine
        sampleHack).get isSome_sampleHack) :=
    ⟨_, _, _, _, (System.run_exec_get isSome_sampleHack).reaches⟩
  exact ⟨_, h, by decide, by decide, protection_spec (fun _ => Cpu.valid_sample) h⟩

structure Ready (T : SyscallTable K) (o : Nat → Cpu) (c : Cfg K) (d : MachineCfg K) : Prop where
  reachable : Reachable K T c
  module : d.module = c
  hacking : (Quiet o d ∧ ∀ j, (d.locals j).thread.hacking = false) ∨ ∃ i k, InSection o d i k .body

namespace Ready

open InSection

theorem enter (ho : ∀ k, (o k).Valid hasCet) (hr : Reachable K T c) (hmodule : d.module = c)
    (h : Quiet o d) {j : Nat} (hj : (d.locals j).thread.hacking = true)
    : ∃ d', (protectedThrottling K hasCet).Reaches d d' ∧ Ready T o c d' := by
  obtain ⟨d₁, h₁⟩ := h.pin hasCet hj (.go, 0)
  obtain ⟨d₂, h₂⟩ := h₁.inSection.readCr0 hasCet (.go, 0)
  obtain ⟨d₃, h₃⟩ := h₂.inSection.readCr4 hasCet (.go, 0)
  obtain ⟨d₄, h₄⟩ := h₃.inSection.cetDisable hasCet (ho 0) (.go, 0)
  obtain ⟨d₅, h₅⟩ := h₄.inSection.unprotect hasCet (.go, 0)
  refine ⟨d₅, ?_, hr, ?_, .inr ⟨j, 0, h₅.inSection⟩⟩
  . have hoff : (protectedThrottling K hasCet).Reaches d d₃ :=
      .tail _ (.tail _ (.tail _ .refl trivial h₁.step) trivial h₂.step) trivial h₃.step
    exact .tail _ (.tail _ hoff trivial h₄.step) trivial h₅.step
  . rw [h₅.module, h₄.module, h₃.module, h₂.module, h₁.module]
    exact hmodule

theorem leave (ho : ∀ k, (o k).Valid hasCet) (hr : Reachable K T c)
    (hmodule : d.module = c) {i k : Nat} (h : InSection o d i k .protect)
    : ∃ d', (protectedThrottling K hasCet).Reaches d d' ∧ Ready T o c d' := by
  obtain ⟨d₁, h₁⟩ := h.protect hasCet (.go, 0)
  obtain ⟨d₂, h₂⟩ := h₁.inSection.cetEnable hasCet (ho k) (.go, 0)
  obtain ⟨d₃, h₃, hmodule₃, hquiet⟩ := h₂.inSection.preemptEnable hasCet (.go, 0)
  have hsame : d₃.module = d.module := by rw [hmodule₃, h₂.module, h₁.module]
  refine ⟨d₃, ?_, hr, hsame.trans hmodule, .inl ⟨hquiet, ?_⟩⟩
  . exact .tail _ (.tail _ (.tail _ .refl trivial h₁.step) trivial h₂.step) trivial h₃
  . intro j
    have hj : (d₃.locals j).thread = (d.locals j).thread :=
      congrFun (congrArg Config.locals hsame) j
    rw [hj]
    by_cases hji : j = i
    . rw [hji, h.hacking]
      rfl
    . apply eq_false_of_ne_true
      intro hhacking
      rw [← hmodule] at hr
      exact hji (eq_of_holds hr (Thread.holds_of_hacking hhacking) h.holds)

theorem envStep {c' : Cfg K} {e : EnvStep} (h : Ready T o c d)
    (hs : (throttling K).step c (.env e) = some c')
    : ∃ d', (protectedThrottling K hasCet).Reaches d d' ∧ Ready T o c' d' := by
  have hr := reachable_trans h.reachable (.tail _ .refl trivial hs)
  have hmodule := h.module
  obtain ⟨s, ev, heq, rfl⟩ := System.step_env hs
  subst hmodule
  have henv : (protectedThrottling K hasCet).env e d.shared
    = some ({ d.shared with shared := s }, ev) := by
    have hbase : d.shared.shared.envStep e = some (s, ev) := heq
    simp only [protectedThrottling, hbase, Option.map_some]
  refine ⟨⟨{ d.shared with shared := s }, d.locals, ev ++ d.trace⟩, ?_, hr, rfl, ?_⟩
  . apply System.Run.tail (.env e) .refl trivial
    simp only [System.step, henv]
  . rcases h.hacking with ⟨hquiet, hnot⟩ | ⟨i, k, hin⟩
    . exact .inl ⟨⟨hquiet.hack, hquiet.cpus⟩, hnot⟩
    . exact .inr ⟨i, k, hin.hack, hin.holds, hin.hacking, hin.others, hin.cpus, hin.expects⟩

theorem quietStep (ho : ∀ k, (o k).Valid hasCet) {c' : Cfg K} {j : Nat} {ch : Choice (Task K)}
    (hmodule : d.module = c) (hr : Reachable K T c') (hquiet : Quiet o d)
    (hnot : ∀ j, (d.locals j).thread.hacking = false)
    (hs : (throttling K).step c (.run j ch) = some c')
    : ∃ d', (protectedThrottling K hasCet).Reaches d d' ∧ Ready T o c' d' := by
  subst hmodule
  obtain ⟨s, t, ev, heq, rfl⟩ := System.step_run hs
  have hplain := step_plain hasCet (ch, 0) (hquiet.hack j) (hnot j) heq
  have hmodule : (d.plain j s t ev).module = _ := module_plain
  have hrun : (protectedThrottling K hasCet).Reaches d (d.plain j s t ev) :=
    .tail _ .refl trivial hplain
  have hself : ((d.plain j s t ev).locals j).thread = t := by
    unfold MachineCfg.plain
    dsimp only
    rw [Function.update_self]
  by_cases ht : t.hacking = true
  . obtain ⟨d', hrun', hready⟩ := enter ho hr hmodule hquiet.plain (j := j)
      (by rw [hself]; exact ht)
    exact ⟨d', hrun.trans hrun', hready⟩
  . refine ⟨_, hrun, hr, hmodule, .inl ⟨hquiet.plain, ?_⟩⟩
    intro i
    by_cases hi : i = j
    . rw [hi, hself]
      exact eq_false_of_ne_true ht
    . rw [show (d.plain j s t ev).locals i = d.locals i from Function.update_of_ne hi ..]
      apply hnot

theorem sectionStep (ho : ∀ k, (o k).Valid hasCet) {c' : Cfg K} {i j k : Nat} {ch : Choice (Task K)}
    (hmodule : d.module = c) (hr : Reachable K T c) (hr' : Reachable K T c')
    (h : InSection o d i k .body) (hs : (throttling K).step c (.run j ch) = some c')
    : ∃ d', (protectedThrottling K hasCet).Reaches d d' ∧ Ready T o c' d' := by
  subst hmodule
  obtain ⟨s, t, ev, heq, rfl⟩ := System.step_run hs
  by_cases hj : j = i
  . subst hj
    obtain ⟨d₁, h₁, hmodule, hin⟩ := h.body hasCet (ch, 0) heq
    have hrun : (protectedThrottling K hasCet).Reaches d d₁ := .tail _ .refl trivial h₁
    by_cases ht : t.hacking = true
    . rw [if_pos ht] at hin
      exact ⟨d₁, hrun, hr', hmodule, .inr ⟨j, k, hin⟩⟩
    . rw [if_neg ht] at hin
      obtain ⟨d', hrun', hready⟩ := leave ho hr' hmodule hin
      exact ⟨d', hrun.trans hrun', hready⟩
  . have hnot : (d.locals j).thread.hacking = false := by
      apply eq_false_of_ne_true
      intro hhacking
      exact hj (eq_of_holds hr (Thread.holds_of_hacking hhacking) h.holds)
    have hplain := step_plain hasCet (ch, 0) (h.others j hj) hnot heq
    exact ⟨_, .tail _ .refl trivial hplain, hr', module_plain, .inr ⟨i, k, h.plain hj⟩⟩

theorem step (ho : ∀ k, (o k).Valid hasCet) {c' : Cfg K} {l : Lbl K} (h : Ready T o c d)
    (hs : (throttling K).step c l = some c')
    : ∃ d', (protectedThrottling K hasCet).Reaches d d' ∧ Ready T o c' d' := by
  cases l with
  | env e => exact h.envStep hs
  | run j ch =>
    have hr := reachable_trans h.reachable (.tail _ .refl trivial hs)
    rcases h.hacking with ⟨hquiet, hnot⟩ | ⟨i, k, hin⟩
    . exact quietStep ho h.module hr hquiet hnot hs
    . exact sectionStep ho h.module h.reachable hr hin hs

end Ready

/--
Write protection changes nothing: the states the module goes through on the machine are those it
goes through in a memory it may write.
-/
theorem reachable_iff_machine (ho : ∀ k, (o k).Valid hasCet)
    : Reachable K T c ↔ ∃ d, MachineReachable hasCet T o d ∧ d.module = c := by
  constructor
  . rintro ⟨stats, now, h⟩
    have h0 : Ready T o (loaded K T stats now) (loadedMachine K T stats now o 0 0) :=
      ⟨⟨stats, now, .refl⟩, rfl, .inl ⟨⟨fun _ => rfl, fun _ => rfl⟩, fun _ => rfl⟩⟩
    obtain ⟨d, hrun, hready⟩ := exists_reaches (B := protectedThrottling K hasCet)
      (fun hR hs => Ready.step ho hR hs) h h0
    exact ⟨d, ⟨stats, now, 0, 0, hrun⟩, hready.module⟩
  . rintro ⟨d, h, rfl⟩
    exact h.module

theorem reachable_iff_machine_sample
    : ∃ d : MachineCfg Platform.sample,
      MachineReachable true SyscallTable.sample (fun _ => .sample) d
        ∧ d.module = (sampleRun (fun _ _ => true) sampleSetup).get (by decide) :=
  (reachable_iff_machine (o := fun _ => .sample) fun _ => Cpu.valid_sample).mp
    (reachable_sampleRun (by decide))

end Machine

end Throttling

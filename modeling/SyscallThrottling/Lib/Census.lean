import Mathlib.Data.Set.Card
import SyscallThrottling.Lib.Interleaving

/-!
This module contains a rule for a shared counter of the threads that are in a section of their code:
if every entry adds one and every exit takes one away, it is their number in all interleavings.
-/

namespace Interleaving

universe u

variable {σ τ Env Choice Ev : Type u} {A : System σ τ Env Choice Ev} {P : τ → Prop} {κ : σ → Int}

section Update

variable {locals : Nat → τ} {i : Nat} {l : τ}

theorem encard_update_same (h : P l ↔ P (locals i))
    : {j | P (Function.update locals i l j)}.encard = {j | P (locals j)}.encard := by
  congr 1
  ext j
  by_cases hji : j = i
  . subst hji
    simpa using h
  . simp [hji]

theorem encard_update_enter (h : ¬P (locals i)) (h' : P l)
    : {j | P (Function.update locals i l j)}.encard = {j | P (locals j)}.encard + 1 := by
  have hset : {j | P (Function.update locals i l j)} = insert i {j | P (locals j)} := by
    ext j
    by_cases hji : j = i
    . subst hji
      simpa using h'
    . simp [hji]
  have hmem : i ∉ {j | P (locals j)} := h
  rw [hset, Set.encard_insert_of_notMem hmem]

theorem encard_update_leave (h : P (locals i)) (h' : ¬P l)
    : {j | P (locals j)}.encard = {j | P (Function.update locals i l j)}.encard + 1 := by
  have hset : {j | P (locals j)} = insert i {j | P (Function.update locals i l j)} := by
    ext j
    by_cases hji : j = i
    . subst hji
      simpa using h
    . simp [hji]
  have hmem : i ∉ {j | P (Function.update locals i l j)} := by simpa using h'
  rw [hset, Set.encard_insert_of_notMem hmem]

end Update

/-- What the steps do to the counter `κ` of the threads in the section `P`. -/
structure Counts (A : System σ τ Env Choice Ev) (P : τ → Prop) (κ : σ → Int) : Prop where
  env : ∀ {e s s' ev}, A.env e s = some (s', ev) → κ s' = κ s
  thread : ∀ {i ch s l s' l' ev}, A.thread i ch s l = some (s', l', ev) →
    ((P l' ↔ P l) ∧ κ s' = κ s) ∨ (¬P l ∧ P l' ∧ κ s' = κ s + 1) ∨ (P l ∧ ¬P l' ∧ κ s' = κ s - 1)

def Census (P : τ → Prop) (κ : σ → Int) (c : Config σ τ Ev) : Prop :=
  ∃ n : Nat, κ c.shared = n ∧ {i | P (c.locals i)}.encard = n

theorem Census.initial {c : Config σ τ Ev} (h0 : κ c.shared = 0) (hP : ∀ i, ¬P (c.locals i))
    : Census P κ c := by
  refine ⟨0, h0, ?_⟩
  simp [hP]

theorem Census.finite {c : Config σ τ Ev} (h : Census P κ c) : {i | P (c.locals i)}.Finite := by
  obtain ⟨n, _, hn⟩ := h
  exact Set.finite_of_encard_eq_coe hn

theorem Census.nonneg {c : Config σ τ Ev} (h : Census P κ c) : 0 ≤ κ c.shared := by
  obtain ⟨n, hκ, _⟩ := h
  rw [hκ]
  exact Int.natCast_nonneg n

theorem Census.eq_ncard {c : Config σ τ Ev} (h : Census P κ c)
    : κ c.shared = ({i | P (c.locals i)}.ncard : Nat) := by
  obtain ⟨n, hκ, hn⟩ := h
  rw [hκ, Set.ncard_def, hn, ENat.toNat_natCast]

theorem Census.step {c c' : Config σ τ Ev} {lbl : Label Env Choice} (hA : Counts A P κ)
    (h : Census P κ c) (hs : A.step c lbl = some c') : Census P κ c' := by
  obtain ⟨n, hκ, hn⟩ := h
  cases lbl with
  | env e =>
    obtain ⟨s, ev, heq, rfl⟩ := System.step_env hs
    exact ⟨n, (hA.env heq).trans hκ, hn⟩
  | run i ch =>
    obtain ⟨s, l, ev, heq, rfl⟩ := System.step_run hs
    rcases hA.thread heq with ⟨hP, hsame⟩ | ⟨hl, hl', henter⟩ | ⟨hl, hl', hleave⟩
    . refine ⟨n, hsame.trans hκ, ?_⟩
      dsimp only
      rw [encard_update_same hP, hn]
    . refine ⟨n + 1, by dsimp only; omega, ?_⟩
      dsimp only
      rw [encard_update_enter hl hl', hn, Nat.cast_succ]
    . have hcard := encard_update_leave hl hl'
      rw [hn] at hcard
      cases n with
      | zero => exact absurd hcard.symm (by simp)
      | succ k =>
        refine ⟨k, by dsimp only; omega, ?_⟩
        rw [Nat.cast_succ] at hcard
        exact (ENat.add_left_injective_of_ne_top ENat.one_ne_top hcard).symm

theorem Census.run {G : Config σ τ Ev → Label Env Choice → Prop} {c c' : Config σ τ Ev}
    (hA : Counts A P κ) (h : Census P κ c) (hrun : A.Run G c c') : Census P κ c' :=
  hrun.invariant h fun _ _ _ hc _ hs => hc.step hA hs

end Interleaving

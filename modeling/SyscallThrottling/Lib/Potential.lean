import SyscallThrottling.Lib.Interleaving

/-!
This module contains bounds on the steps a thread makes: each one takes something off a potential,
which only the other threads can restore, by changing what the thread looks at.
-/

namespace Potential

open Interleaving

universe u v

variable {σ τ Env Choice Ev : Type u} {ν : Type v} [DecidableEq ν]

def isOwn (i : Nat) : Label Env Choice → Bool
  | .env _ => false
  | .run j _ => j = i

def ownSteps (i : Nat) (ls : List (Label Env Choice)) : Nat :=
  ls.countP (isOwn i)

/-- How often others than thread `i` change what `view` shows in the run from `c`. -/
def changes (A : System σ τ Env Choice Ev) (view : σ → ν) (i : Nat) (c : Config σ τ Ev)
    : List (Label Env Choice) → Nat
  | [] => 0
  | l :: ls =>
    match A.step c l with
    | none => 0
    | some c' =>
      (if isOwn i l ∨ view c'.shared = view c.shared then 0 else 1) + changes A view i c' ls

variable {A : System σ τ Env Choice Ev} {view : σ → ν} {i : Nat} {c c' : Config σ τ Ev}

theorem changes_cons {l : Label Env Choice} (h : A.step c l = some c')
    (ls : List (Label Env Choice))
    : changes A view i c (l :: ls)
        = (if isOwn i l ∨ view c'.shared = view c.shared then 0 else 1) + changes A view i c' ls := by
  rw [changes, h]

theorem locals_of_not_own {l : Label Env Choice} (h : A.step c l = some c') (hl : ¬isOwn i l)
    : c'.locals i = c.locals i := by
  cases l with
  | env e =>
    obtain ⟨_, _, _, rfl⟩ := System.step_env h
    rfl
  | run j ch =>
    obtain ⟨_, _, _, _, rfl⟩ := System.step_run h
    have hij : i ≠ j := by simpa [isOwn, eq_comm] using hl
    exact Function.update_of_ne hij ..

variable {left : ν → τ → Nat} {bound : Nat}

/-- What one step does to the potential: it pays for an own step, and a change restores it. -/
theorem step_le (hbound : ∀ v t, left v t ≤ bound)
    (hown : ∀ {c ch c'}, A.step c (.run i ch) = some c' →
      left (view c'.shared) (c'.locals i) < left (view c.shared) (c.locals i))
    {l : Label Env Choice} (h : A.step c l = some c')
    : (if isOwn i l then 1 else 0) + left (view c'.shared) (c'.locals i)
        ≤ left (view c.shared) (c.locals i)
          + bound * (if isOwn i l ∨ view c'.shared = view c.shared then 0 else 1) := by
  by_cases hl : isOwn i l
  . cases l with
    | env e => cases hl
    | run j ch =>
      have hj : j = i := by simpa [isOwn] using hl
      subst hj
      have hlt := hown h
      simp only [hl, if_true, true_or]
      omega
  . rw [locals_of_not_own h hl]
    by_cases hview : view c'.shared = view c.shared
    . simp [hl, hview]
    . have hle := hbound (view c'.shared) (c.locals i)
      simp only [hl, hview, or_self, if_false, Bool.false_eq_true, Nat.mul_one]
      omega

theorem ownSteps_le (left : ν → τ → Nat) (view : σ → ν) (hbound : ∀ v t, left v t ≤ bound)
    (hown : ∀ {c ch c'}, A.step c (.run i ch) = some c' →
      left (view c'.shared) (c'.locals i) < left (view c.shared) (c.locals i))
    {ls : List (Label Env Choice)} (h : A.exec (fun _ _ => true) c ls = some c')
    : ownSteps i ls + left (view c'.shared) (c'.locals i)
        ≤ left (view c.shared) (c.locals i) + bound * changes A view i c ls := by
  induction ls generalizing c with
  | nil =>
    cases h
    simp [ownSteps]
  | cons l ls ih =>
    simp only [System.exec, if_true] at h
    split at h
    . next c₁ heq =>
      have hfirst := step_le hbound hown heq
      have hrest := ih h
      rw [changes_cons heq, Nat.mul_add]
      simp only [ownSteps, List.countP_cons] at hrest ⊢
      omega
    . cases h

end Potential

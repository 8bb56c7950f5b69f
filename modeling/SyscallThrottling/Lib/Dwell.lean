import SyscallThrottling.Lib.Interleaving

/-!
This module contains the time threads spend in the states of a kind, on a clock that the shared
state shows: the sum of what the clock advances while the thread is in such a state.
-/

namespace Interleaving

universe u

variable {σ τ Env Choice Ev : Type u}

section Dwell

variable (A : System σ τ Env Choice Ev) (clock : σ → Nat) (inside : τ → Bool)

/-- What the clock advances in the step from `c` to `c'`, for the threads that were inside. -/
def advance (c c' : Config σ τ Ev) (i : Nat) : Nat :=
  if inside (c.locals i) then clock c'.shared - clock c.shared else 0

def dwell (c : Config σ τ Ev) (i : Nat) : List (Label Env Choice) → Nat
  | [] => 0
  | l :: ls =>
    match A.step c l with
    | none => 0
    | some c' => advance clock inside c c' i + dwell c' i ls

end Dwell

variable {A : System σ τ Env Choice Ev} {clock : σ → Nat} {inside : τ → Bool}
  {c c' : Config σ τ Ev} {ls : List (Label Env Choice)}

theorem advance_of_outside {i : Nat} (h : inside (c.locals i) = false)
    : advance clock inside c c' i = 0 := by
  apply if_neg
  rw [h]
  exact Bool.false_ne_true

theorem advance_of_clock_eq {i : Nat} (h : clock c'.shared = clock c.shared)
    : advance clock inside c c' i = 0 := by
  unfold advance
  rw [h, Nat.sub_self]
  split <;> rfl

/--
An invariant that speaks about the time spent so far, as if a counter of it were part of the state.
-/
theorem dwell_invariant (I : (Nat → Nat) → Config σ τ Ev → Prop) {D : Nat → Nat}
    (hstep : ∀ {D c l c'}, I D c → A.step c l = some c' →
      I (fun i => D i + advance clock inside c c' i) c')
    (h0 : I D c) (h : A.exec (fun _ _ => true) c ls = some c')
    : I (fun i => D i + dwell A clock inside c i ls) c' := by
  induction ls generalizing c D with
  | nil =>
    cases h
    exact h0
  | cons l ls ih =>
    simp only [System.exec, if_true] at h
    split at h
    . next c₁ heq =>
      have hrest := ih (hstep h0 heq) h
      simp only [dwell, heq]
      simpa only [Nat.add_assoc] using hrest
    . cases h

theorem dwell_le (inside : τ → Bool)
    (hclock : ∀ {c l c'}, A.step c l = some c' → clock c.shared ≤ clock c'.shared)
    (h : A.exec (fun _ _ => true) c ls = some c') (i : Nat)
    : clock c.shared + dwell A clock inside c i ls ≤ clock c'.shared := by
  have hstep : ∀ {D : Nat → Nat} {c₁ : Config σ τ Ev} {l : Label Env Choice} {c₂ : Config σ τ Ev},
      clock c.shared + D i ≤ clock c₁.shared → A.step c₁ l = some c₂ →
        clock c.shared + (D i + advance clock inside c₁ c₂ i) ≤ clock c₂.shared := by
    intro D c₁ l c₂ hI hs
    have hmono := hclock hs
    unfold advance
    split <;> omega
  have hle := dwell_invariant (fun D c' => clock c.shared + D i ≤ clock c'.shared) (D := fun _ => 0)
    hstep (Nat.le_refl _) h
  simpa using hle

end Interleaving

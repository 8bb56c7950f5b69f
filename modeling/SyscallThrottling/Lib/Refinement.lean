import SyscallThrottling.Lib.Interleaving

/-!
This module contains refinements between interleaved systems: a system whose steps are steps of a
coarser one, or are not seen there, and a system that can follow every step of another.
-/

namespace Interleaving

universe u

variable {σ τ Env Choice σ' τ' Env' Choice' Ev : Type u}

def Config.map (f : σ' → σ) (g : τ' → τ) (d : Config σ' τ' Ev) : Config σ τ Ev where
  shared := f d.shared
  locals i := g (d.locals i)
  trace := d.trace

/--
Each step of `B` is a step of `A` with the same events, or it logs nothing and is not seen in `A`.
-/
structure Implements (B : System σ' τ' Env' Choice' Ev) (A : System σ τ Env Choice Ev) (f : σ' → σ)
    (g : τ' → τ) : Prop where
  env : ∀ {e s s' ev}, B.env e s = some (s', ev) →
    (∃ e', A.env e' (f s) = some (f s', ev)) ∨ (f s' = f s ∧ ev = [])
  thread : ∀ {i ch s t s' t' ev}, B.thread i ch s t = some (s', t', ev) →
    (∃ ch', A.thread i ch' (f s) (g t) = some (f s', g t', ev))
    ∨ (f s' = f s ∧ g t' = g t ∧ ev = [])

variable {A : System σ τ Env Choice Ev} {B : System σ' τ' Env' Choice' Ev} {f : σ' → σ} {g : τ' → τ}
  {c c' : Config σ τ Ev} {d d' : Config σ' τ' Ev}

theorem map_update (s : σ') (i : Nat) (t : τ') (trace : List Ev)
    : (⟨s, Function.update d.locals i t, trace⟩ : Config σ' τ' Ev).map f g
        = ⟨f s, Function.update (d.map f g).locals i (g t), trace⟩ := by
  simp only [Config.map, Config.mk.injEq, true_and, and_true]
  funext j
  exact Function.apply_update (fun _ => g) d.locals i t j

namespace Implements

theorem step (h : Implements B A f g) {l : Label Env' Choice'} (hs : B.step d l = some d')
    : A.Reaches (d.map f g) (d'.map f g) := by
  cases l with
  | env e =>
    obtain ⟨s, ev, heq, rfl⟩ := System.step_env hs
    rcases h.env heq with ⟨e', he'⟩ | ⟨hsame, rfl⟩
    . apply System.Run.tail (.env e') .refl trivial
      simp only [System.step, Config.map, he']
    . simp only [Config.map, hsame, List.nil_append]
      exact .refl
  | run i ch =>
    obtain ⟨s, t, ev, heq, rfl⟩ := System.step_run hs
    rw [map_update]
    rcases h.thread heq with ⟨ch', hch'⟩ | ⟨hshared, hlocal, rfl⟩
    . apply System.Run.tail (.run i ch') .refl trivial
      simp only [System.step, Config.map, hch']
    . rw [hshared, hlocal, List.nil_append,
        show g (d.locals i) = (d.map f g).locals i from rfl, Function.update_eq_self]
      exact .refl

theorem reaches (h : Implements B A f g) (hrun : B.Reaches d d')
    : A.Reaches (d.map f g) (d'.map f g) := by
  induction hrun with
  | refl => exact .refl
  | tail l _ _ hs ih => exact ih.trans (h.step hs)

end Implements

/-- What `A` can do, `B` can follow, in as many steps as it takes. -/
theorem exists_reaches {R : Config σ τ Ev → Config σ' τ' Ev → Prop}
    (hstep : ∀ {c c' d l}, R c d → A.step c l = some c' → ∃ d', B.Reaches d d' ∧ R c' d')
    (h : A.Reaches c c') (h0 : R c d) : ∃ d', B.Reaches d d' ∧ R c' d' := by
  induction h with
  | refl => exact ⟨d, .refl, h0⟩
  | tail l _ _ hs ih =>
    obtain ⟨d₁, hrun, hR⟩ := ih
    obtain ⟨d₂, hnext, hR'⟩ := hstep hR hs
    exact ⟨d₂, hrun.trans hnext, hR'⟩

end Interleaving

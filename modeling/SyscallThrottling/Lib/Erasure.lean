import Mathlib.Data.List.Basic
import Mathlib.Data.Option.Basic

/-!
This module contains what the outputs of a machine do not depend on. Actions and states carry data
that an erasure removes; if the steps commute with the erasure, two runs whose actions differ in the
erased data only agree on what they output, as long as no action outputs such data.
-/

namespace Erasure

universe u

variable {σ A O : Type u}

def exec (step : σ → A → Option (O × σ)) (s : σ) : List A → Option (List O × σ)
  | [] => some ([], s)
  | a :: as =>
    match step s a with
    | some (o, s) => (exec step s as).map fun (os, s) => (o :: os, s)
    | none => none

def Avoids (step : σ → A → Option (O × σ)) (leaks : σ → A → Prop) (s : σ) : List A → Prop
  | [] => True
  | a :: as => ¬leaks s a ∧ ∀ o s', step s a = some (o, s') → Avoids step leaks s' as

/--
The data that is erased does not reach the erased states. It reaches the output of a leaking action,
and of no other.
-/
structure Erases (step : σ → A → Option (O × σ)) (leaks : σ → A → Prop) (eσ : σ → σ) (eA : A → A)
    : Prop where
  congr : ∀ {s s' a a'}, eσ s = eσ s' → eA a = eA a'
    → (step s a).map (fun r => eσ r.2) = (step s' a').map (fun r => eσ r.2)
  leaks_congr : ∀ {s s' a a'}, eσ s = eσ s' → eA a = eA a' → leaks s a → leaks s' a'
  out_congr : ∀ {s s' a a'}, eσ s = eσ s' → eA a = eA a' → ¬leaks s a
    → (step s a).map Prod.fst = (step s' a').map Prod.fst
  reaches : ∀ {s a o s'}, leaks s a → step s a = some (o, s')
    → ∃ a', eA a' = eA a ∧ (step s a').map Prod.fst ≠ some o

namespace Erases

variable {step : σ → A → Option (O × σ)} {leaks : σ → A → Prop} {eσ : σ → σ} {eA : A → A}
  {s s' : σ} {as as' : List A} {os : List O}

theorem exec_eq (h : Erases step leaks eσ eA) {c : σ} (hs : eσ s = eσ s')
    (has : as.map eA = as'.map eA) (hrun : exec step s as = some (os, c))
    (havoids : Avoids step leaks s as) : (exec step s' as').map Prod.fst = some os := by
  induction as generalizing s s' as' os with
  | nil =>
    obtain rfl : as' = [] := by simpa using has.symm
    cases hrun
    rfl
  | cons a as ih =>
    cases as' with
    | nil => cases has
    | cons a' as' =>
      rw [List.map_cons, List.map_cons, List.cons.injEq] at has
      obtain ⟨ha, has⟩ := has
      obtain ⟨hleak, havoids⟩ := havoids
      have hstep := h.congr hs ha
      have hout := h.out_congr hs ha hleak
      cases hsa : step s a with
      | none => simp [exec, hsa] at hrun
      | some r =>
        obtain ⟨o, t⟩ := r
        cases hsa' : step s' a' with
        | none => simp [hsa, hsa'] at hstep
        | some r' =>
          obtain ⟨o', t'⟩ := r'
          simp only [hsa, hsa', Option.map_some, Option.some.injEq] at hstep hout
          simp only [exec, hsa, Option.map_eq_some_iff, Prod.mk.injEq] at hrun
          obtain ⟨⟨os', c'⟩, hrun, rfl, rfl⟩ := hrun
          have hrest := ih hstep has hrun (havoids o t hsa)
          obtain ⟨⟨_, c''⟩, hrun', rfl⟩ := Option.map_eq_some_iff.mp hrest
          simp [exec, hsa', hrun', hout]

theorem avoids (h : Erases step leaks eσ eA) {c : σ} (hrun : exec step s as = some (os, c))
    (hall : ∀ as', as'.map eA = as.map eA → (exec step s as').map Prod.fst = some os)
    : Avoids step leaks s as := by
  induction as generalizing s os with
  | nil => trivial
  | cons a as ih =>
    cases hsa : step s a with
    | none => simp [exec, hsa] at hrun
    | some r =>
      obtain ⟨o, t⟩ := r
      simp only [exec, hsa, Option.map_eq_some_iff, Prod.mk.injEq] at hrun
      obtain ⟨⟨os', c'⟩, hrun, rfl, rfl⟩ := hrun
      constructor
      . intro hleak
        obtain ⟨a', ha', hne⟩ := h.reaches hleak hsa
        have hrun' := hall (a' :: as) (by simp [ha'])
        cases hsa' : step s a' with
        | none => simp [exec, hsa'] at hrun'
        | some r' =>
          simp only [exec, hsa', Option.map_map, Option.map_eq_some_iff, Function.comp_apply,
            List.cons.injEq] at hrun'
          obtain ⟨_, _, rfl, _⟩ := hrun'
          exact hne (by simp [hsa'])
      . intro o' t' hsa'
        rw [hsa] at hsa'
        cases hsa'
        refine ih hrun fun as' has' => ?_
        have hrun' := hall (a :: as') (by simp [has'])
        simp only [exec, hsa, Option.map_map, Option.map_eq_some_iff, Function.comp_apply,
          List.cons.injEq, true_and] at hrun'
        obtain ⟨_, hr, rfl⟩ := hrun'
        simp [hr]

/-- The outputs do not depend on the data that is erased, exactly if no action leaks. -/
theorem independent_iff (h : Erases step leaks eσ eA) {c : σ}
    (hrun : exec step s as = some (os, c))
    : (∀ as', as'.map eA = as.map eA → (exec step s as').map Prod.fst = some os)
        ↔ Avoids step leaks s as := by
  constructor
  . exact h.avoids hrun
  . exact fun havoids as' has => h.exec_eq rfl has.symm hrun havoids

end Erases

end Erasure

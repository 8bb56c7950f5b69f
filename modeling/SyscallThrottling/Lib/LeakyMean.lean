import Mathlib.Algebra.Order.Field.Rat
import Mathlib.Data.Nat.Cast.Order.Field
import Mathlib.Tactic.FieldSimp
import Mathlib.Tactic.Linarith
import Mathlib.Tactic.Positivity
import Mathlib.Tactic.Ring

/-!
This module contains a small theory of the leaky mean: each step takes one part in `d` of the value
away and puts an increment in. The integer recurrence truncates that part, the exact one over the
rationals does not.
-/

namespace LeakyMean

def step (d m b : Nat) : Nat :=
  m - m / d + b

def exactStep (d : Nat) (e : ℚ) (b : Nat) : ℚ :=
  e - e / d + b

def run (d m : Nat) (bs : List Nat) : Nat :=
  bs.foldl (step d) m

def exactRun (d : Nat) (e : ℚ) (bs : List Nat) : ℚ :=
  bs.foldl (exactStep d) e

variable {d m b c : Nat} {e : ℚ} {bs : List Nat}

section Step

/-- The error loses one part in `d`, and the truncation adds a remainder of that size. -/
theorem step_sub_exactStep (hd : 0 < d)
    : (step d m b : ℚ) - exactStep d e b = ((d - 1) * (m - e) + (m % d : Nat)) / d := by
  have hd' : (d : ℚ) ≠ 0 := by exact_mod_cast hd.ne'
  have hstep : (step d m b : ℚ) = m - (m / d : Nat) + b := by
    rw [step, Nat.cast_add, Nat.cast_sub (Nat.div_le_self m d)]
  have hdiv : (m : ℚ) = d * (m / d : Nat) + (m % d : Nat) := by
    exact_mod_cast (Nat.div_add_mod m d).symm
  rw [hstep, exactStep]
  field_simp
  linarith

/-- A value that is less than `d - 1` above the exact one stays so. -/
theorem step_error (hd : 0 < d) (hle : e ≤ m) (hlt : (m : ℚ) < e + (d - 1))
    : exactStep d e b ≤ step d m b ∧ (step d m b : ℚ) < exactStep d e b + (d - 1) := by
  have hd' : (0 : ℚ) < d := by exact_mod_cast hd
  have hpos : (0 : ℚ) < d - 1 := by linarith
  have hmod : ((m % d : Nat) : ℚ) ≤ d - 1 := by
    have hcast : ((m % d : Nat) : ℚ) + 1 ≤ d := by exact_mod_cast Nat.mod_lt m hd
    linarith
  have herror := step_sub_exactStep (m := m) (b := b) (e := e) hd
  have hlower : 0 ≤ ((d - 1) * (m - e) + (m % d : Nat)) / (d : ℚ) := by
    have := mul_nonneg hpos.le (sub_nonneg.mpr hle)
    positivity
  have hupper : ((d - 1) * (m - e) + (m % d : Nat)) / (d : ℚ) < d - 1 := by
    rw [div_lt_iff₀ hd']
    calc (d - 1) * (m - e) + (m % d : Nat)
      _ < ((d : ℚ) - 1) * (d - 1) + (d - 1) := by
        have : (d - 1) * (m - e) < ((d : ℚ) - 1) * (d - 1) := by
          apply mul_lt_mul_of_pos_left _ hpos
          linarith
        linarith
      _ = (d - 1) * d := by ring
  constructor <;> linarith

theorem sub_div_mono {n : Nat} (hd : 0 < d) (h : m ≤ n) : m - m / d ≤ n - n / d := by
  have hdiv : n / d ≤ m / d + (n - m) := by
    calc n / d
      _ = (m + (n - m)) / d := by rw [Nat.add_sub_of_le h]
      _ ≤ (m + d * (n - m)) / d := by
        apply Nat.div_le_div_right
        apply Nat.add_le_add_left
        exact Nat.le_mul_of_pos_left _ hd
      _ = m / d + (n - m) := Nat.add_mul_div_left _ _ hd
  have := Nat.div_le_self m d
  omega

theorem step_le (hd : 0 < d) (hm : m ≤ d * c) (hb : b ≤ c) : step d m b ≤ d * c := by
  have hmono := sub_div_mono hd hm
  rw [Nat.mul_div_cancel_left c hd] at hmono
  have hc : c ≤ d * c := Nat.le_mul_of_pos_left c hd
  unfold step
  omega

/-- The value tends to `d * c` under increments of `c`: above that it does not grow. -/
theorem step_le_max (hd : 0 < d) (hb : b ≤ c) : step d m b ≤ max m (d * c) := by
  rcases Nat.le_total m (d * c) with hm | hm
  . rw [max_eq_right hm]
    exact step_le hd hm hb
  . have hdiv : c ≤ m / d := by
      rw [Nat.le_div_iff_mul_le hd, Nat.mul_comm]
      exact hm
    have := Nat.div_le_self m d
    rw [max_eq_left hm]
    unfold step
    omega

theorem step_pos (hd : 1 < d) (hm : 0 < m) : 0 < step d m b := by
  have := Nat.div_lt_self hm hd
  unfold step
  omega

end Step

section Run

theorem run_error (hd : 0 < d) (hle : e ≤ m) (hlt : (m : ℚ) < e + (d - 1))
    : exactRun d e bs ≤ run d m bs ∧ (run d m bs : ℚ) < exactRun d e bs + (d - 1) := by
  induction bs generalizing m e with
  | nil => exact ⟨hle, hlt⟩
  | cons b bs ih =>
    obtain ⟨hle', hlt'⟩ := step_error (b := b) hd hle hlt
    exact ih hle' hlt'

theorem run_le_max (hd : 0 < d) (hbs : ∀ b ∈ bs, b ≤ c) : run d m bs ≤ max m (d * c) := by
  induction bs generalizing m with
  | nil => exact le_max_left m (d * c)
  | cons b bs ih =>
    rw [List.forall_mem_cons] at hbs
    calc run d m (b :: bs)
      _ ≤ max (step d m b) (d * c) := ih hbs.2
      _ ≤ max m (d * c) := max_le (step_le_max hd hbs.1) (le_max_right m (d * c))

theorem run_pos (hd : 1 < d) (hm : 0 < m) : 0 < run d m bs := by
  induction bs generalizing m with
  | nil => exact hm
  | cons b bs ih => exact ih (step_pos hd hm)

end Run

end LeakyMean

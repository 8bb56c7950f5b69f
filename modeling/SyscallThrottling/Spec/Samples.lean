import Mathlib.Algebra.Order.Field.Rat
import Mathlib.Data.Rat.Defs

/-!
This module contains the exact statistics of a sequence of numbers of blocked threads, oldest first.
-/

namespace Throttling

def expStep (e : ℚ) (x : Nat) : ℚ :=
  3 / 4 * e + 1 / 4 * (1024 * x)

/-- The exponential mean, scaled by 1024, which starts at the first sample. -/
def expMean : List Nat → ℚ
  | [] => 0
  | x :: xs => xs.foldl expStep (1024 * x)

def arithMean (xs : List Nat) : ℚ :=
  (xs.sum : ℚ) / xs.length

def largest (xs : List Nat) : Nat :=
  xs.foldl max 0

end Throttling

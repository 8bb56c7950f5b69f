import Mathlib.Algebra.BigOperators.Group.List.Basic
import Mathlib.Algebra.GroupWithZero.Nat
import Mathlib.Data.List.Induction

/-!
This module contains stopwatches: the intervals during which something that is switched on and off
was on.
-/

structure Stopwatch where
  completed : List (Nat × Nat)
  running : Option Nat

namespace Stopwatch

def start (t : Nat) : Stopwatch where
  completed := []
  running := some t

/-- Switch on or off at `t`. A switch to the position it is in does nothing. -/
def switch (w : Stopwatch) (t : Nat) (on : Bool) : Stopwatch :=
  match w.running, on with
  | none, true => { w with running := some t }
  | some s, false => { completed := w.completed ++ [(s, t)], running := none }
  | _, _ => w

def lengths (w : Stopwatch) : List Nat :=
  w.completed.map fun i => i.2 - i.1

def current (w : Stopwatch) (now : Nat) : Nat :=
  match w.running with
  | some s => now - s
  | none => 0

def total (w : Stopwatch) (now : Nat) : Nat :=
  w.lengths.sum + w.current now

def last (w : Stopwatch) : Nat :=
  w.lengths.getLastD 0

def earlier (w : Stopwatch) : List Nat :=
  w.lengths.dropLast

theorem sum_lengths (w : Stopwatch) : w.lengths.sum = w.earlier.sum + w.last := by
  rw [earlier, last]
  cases h : w.lengths using List.reverseRecOn with
  | nil => simp
  | append_singleton l n => simp

theorem total_eq (w : Stopwatch) (now : Nat)
    : w.total now = w.earlier.sum + (w.last + w.current now) := by
  rw [total, sum_lengths, Nat.add_assoc]

@[simp]
theorem last_switch_off {w : Stopwatch} {s t : Nat} (h : w.running = some s)
    : (w.switch t false).last = t - s := by
  simp [switch, h, last, lengths]

end Stopwatch

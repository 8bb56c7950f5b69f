import Mathlib.Data.List.Basic
import Mathlib.Data.List.TakeWhile

/-!
This module contains byte strings that end at their first zero byte, as the C library reads them
from a buffer.
-/

namespace CString

def bytes (s : List UInt8) : List UInt8 :=
  s.takeWhile (· ≠ 0)

def truncate (n : Nat) (s : List UInt8) : List UInt8 :=
  (bytes s).take n

def strnlen (s : List UInt8) (n : Nat) : Nat :=
  (bytes (s.take n)).length

/-- Past the end of a list the buffer reads as zero. -/
def strncmp : Nat → List UInt8 → List UInt8 → Int
  | 0, _, _ => 0
  | n + 1, s, t =>
    if s.headD 0 ≠ t.headD 0 then
      if s.headD 0 < t.headD 0 then -1 else 1
    else if s.headD 0 = 0 then
      0
    else
      strncmp n s.tail t.tail

@[simp]
theorem bytes_nil : bytes [] = [] := rfl

theorem bytes_cons (c : UInt8) (s : List UInt8)
    : bytes (c :: s) = if c = 0 then [] else c :: bytes s := by
  unfold bytes
  by_cases h : c = 0
  . simp [h]
  . simp [h]

theorem bytes_take (n : Nat) (s : List UInt8) : bytes (s.take n) = truncate n s := by
  induction n generalizing s with
  | zero => simp [truncate]
  | succ n ih =>
    cases s with
    | nil => simp [truncate]
    | cons c s =>
      rw [List.take_succ_cons, bytes_cons, ih, truncate, truncate, bytes_cons]
      split <;> simp

theorem ne_zero_of_mem_bytes {c : UInt8} {s : List UInt8} (h : c ∈ bytes s) : c ≠ 0 := by
  simpa using List.mem_takeWhile_imp h

theorem bytes_eq_self {s : List UInt8} (h : ∀ c ∈ s, c ≠ 0) : bytes s = s := by
  rw [bytes, List.takeWhile_eq_self_iff]
  simpa using h

@[simp]
theorem bytes_bytes (s : List UInt8) : bytes (bytes s) = bytes s :=
  bytes_eq_self fun _ hc => ne_zero_of_mem_bytes hc

theorem ne_zero_of_mem_truncate {n : Nat} {c : UInt8} {s : List UInt8} (h : c ∈ truncate n s)
    : c ≠ 0 :=
  ne_zero_of_mem_bytes (List.mem_of_mem_take h)

@[simp]
theorem bytes_truncate (n : Nat) (s : List UInt8) : bytes (truncate n s) = truncate n s :=
  bytes_eq_self fun _ hc => ne_zero_of_mem_truncate hc

theorem length_truncate_le (n : Nat) (s : List UInt8) : (truncate n s).length ≤ n :=
  List.length_take_le n (bytes s)

theorem bytes_append_zero (s t : List UInt8) : bytes (s ++ 0 :: t) = bytes s := by
  induction s with
  | nil => simp [bytes_cons]
  | cons c s ih => rw [List.cons_append, bytes_cons, bytes_cons, ih]

theorem truncate_of_length_le {n : Nat} {s : List UInt8} (h : s.length ≤ n)
    : truncate n s = bytes s := by
  rw [← bytes_take, List.take_of_length_le h]

theorem truncate_truncate (n : Nat) (s : List UInt8)
    : truncate n (truncate n s) = truncate n s := by
  rw [truncate_of_length_le (length_truncate_le n s), bytes_truncate]

theorem take_strnlen (s : List UInt8) (n : Nat) : s.take (strnlen s n) = truncate n s := by
  rw [strnlen, bytes_take, truncate, bytes, List.length_take]
  have hpre : s.take (s.takeWhile (· ≠ 0)).length = s.takeWhile (· ≠ 0) :=
    (List.prefix_iff_eq_take.mp (List.takeWhile_prefix _)).symm
  rw [← List.take_take, hpre]

theorem strncmp_eq_zero (n : Nat) (s t : List UInt8)
    : strncmp n s t = 0 ↔ truncate n s = truncate n t := by
  induction n generalizing s t with
  | zero => simp [strncmp, truncate]
  | succ n ih =>
    have hstep : ∀ s : List UInt8, truncate (n + 1) s
        = if s.headD 0 = 0 then [] else s.headD 0 :: truncate n s.tail := by
      intro s
      cases s with
      | nil => simp [truncate]
      | cons c s =>
        rw [truncate, bytes_cons, List.headD_cons, List.tail_cons]
        by_cases hc : c = 0
        . rw [if_pos hc, if_pos hc, List.take_nil]
        . rw [if_neg hc, if_neg hc, List.take_succ_cons, truncate]
    rw [strncmp, hstep s, hstep t]
    by_cases hst : s.headD 0 = t.headD 0
    . rw [if_neg (by simpa using hst), ← hst]
      by_cases hz : s.headD 0 = 0
      . rw [if_pos hz, if_pos hz, if_pos hz]
        simp
      . rw [if_neg hz, if_neg hz, if_neg hz, ih, List.cons.injEq]
        simp
    . rw [if_pos hst]
      have hne : (if s.headD 0 < t.headD 0 then (-1 : Int) else 1) ≠ 0 := by
        split <;> decide
      refine iff_of_false hne ?_
      by_cases hs : s.headD 0 = 0
      . have ht : t.headD 0 ≠ 0 := fun ht => hst (by rw [hs, ht])
        rw [if_pos hs, if_neg ht]
        simp
      . rw [if_neg hs]
        split
        . simp
        . simp only [List.cons.injEq, not_and]
          exact fun h => absurd h hst

end CString

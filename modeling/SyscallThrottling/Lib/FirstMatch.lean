import Mathlib.Order.Bounds.Basic

/-!
This module contains searches that go through an interval from below and stop at the first hit.
-/

namespace FirstMatch

variable {α : Type*} [LinearOrder α] {P Q : α → Prop} {lo mid hi a : α} {r : Option α}

/-- What a search of `[lo, hi)` for an element with `P` finds. -/
def Found (P : α → Prop) (lo hi : α) : Option α → Prop
  | none => ∀ a, lo ≤ a → a < hi → ¬P a
  | some a => IsLeast {a | lo ≤ a ∧ a < hi ∧ P a} a

theorem Found.empty (h : hi ≤ lo) : Found P lo hi none := by
  intro a hlo hhi
  exact absurd (lt_of_lt_of_le hhi h) (not_lt_of_ge hlo)

theorem Found.skip (hskip : ∀ a, lo ≤ a → a < mid → ¬P a) (hle : lo ≤ mid) (h : Found P mid hi r)
    : Found P lo hi r := by
  cases r with
  | none =>
    intro a hlo hhi
    by_cases hmid : a < mid
    . apply hskip a hlo hmid
    . apply h a (le_of_not_gt hmid) hhi
  | some a =>
    obtain ⟨⟨hmid, hhi, hP⟩, hleast⟩ := h
    refine ⟨⟨hle.trans hmid, hhi, hP⟩, ?_⟩
    rintro b ⟨hlo, hhi', hPb⟩
    by_cases hb : b < mid
    . exact absurd hPb (hskip b hlo hb)
    . exact hleast ⟨le_of_not_gt hb, hhi', hPb⟩

theorem Found.extend (h : Found P lo mid (some a)) (hle : mid ≤ hi) : Found P lo hi (some a) := by
  obtain ⟨⟨hlo, hmid, hP⟩, hleast⟩ := h
  refine ⟨⟨hlo, lt_of_lt_of_le hmid hle, hP⟩, ?_⟩
  rintro b ⟨hlo', _, hPb⟩
  by_cases hb : b < mid
  . exact hleast ⟨hlo', hb, hPb⟩
  . exact (lt_of_lt_of_le hmid (le_of_not_gt hb)).le

theorem Found.head (hlt : lo < hi) (hP : P lo) : Found P lo hi (some lo) :=
  ⟨⟨le_refl lo, hlt, hP⟩, fun _ h => h.1⟩

end FirstMatch

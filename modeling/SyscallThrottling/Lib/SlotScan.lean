import Mathlib.Data.List.Nodup
import Mathlib.Data.Set.Basic

/-!
This module contains scans of a collection that changes while it is scanned: the elements are spread
over numbered slots, and a cursor visits one slot after the other. The sets the collection was equal
to so far are its history, newest first.
-/

namespace SlotScan

universe u

variable {α : Type u} {slot : α → Nat} {history : List (Set α)} {k : Nat} {copied : List α}

/--
What a scan returns if it is as good as a snapshot, for an observer who knows the whole history.
-/
structure Snapshot (history : List (Set α)) (copied : List α) : Prop where
  sound : ∀ x ∈ copied, ∃ S ∈ history, x ∈ S
  nodup : copied.Nodup
  complete : ∀ x, (∀ S ∈ history, x ∈ S) → x ∈ copied

structure Covers (slot : α → Nat) (history : List (Set α)) (k : Nat) (copied : List α) : Prop where
  sound : ∀ x ∈ copied, ∃ S ∈ history, x ∈ S
  nodup : copied.Nodup
  below : ∀ x ∈ copied, slot x < k
  complete : ∀ x, (∀ S ∈ history, x ∈ S) → slot x < k → x ∈ copied

theorem Snapshot.grow (h : Snapshot history copied) (S : Set α)
    : Snapshot (S :: history) copied where
  sound x hx := (h.sound x hx).imp fun _ hS => ⟨List.mem_cons_of_mem _ hS.1, hS.2⟩
  nodup := h.nodup
  complete x hx := h.complete x fun S hS => hx S (List.mem_cons_of_mem _ hS)

namespace Covers

theorem nil : Covers slot history 0 [] where
  sound := by simp
  nodup := by simp
  below := by simp
  complete := by simp

theorem grow (h : Covers slot history k copied) (S : Set α)
    : Covers slot (S :: history) k copied where
  sound x hx := (h.sound x hx).imp fun _ hS => ⟨List.mem_cons_of_mem _ hS.1, hS.2⟩
  nodup := h.nodup
  below := h.below
  complete x hx := h.complete x fun S hS => hx S (List.mem_cons_of_mem _ hS)

/-- The slot under the cursor is copied as a whole, as it is in a set of the history. -/
theorem visit (h : Covers slot history k copied) {S : Set α} (hS : S ∈ history) {l : List α}
    (hl : l.Nodup) (hmem : ∀ x, x ∈ l ↔ x ∈ S ∧ slot x = k)
    : Covers slot history (k + 1) (copied ++ l) where
  sound x hx := by
    rcases List.mem_append.mp hx with hx | hx
    . exact h.sound x hx
    . exact ⟨S, hS, ((hmem x).mp hx).1⟩
  nodup := by
    refine h.nodup.append hl fun x hx hx' => ?_
    -- what was copied before lies below the cursor
    have := h.below x hx
    have := ((hmem x).mp hx').2
    omega
  below x hx := by
    rcases List.mem_append.mp hx with hx | hx
    . exact Nat.lt_succ_of_lt (h.below x hx)
    . exact Nat.lt_succ_of_le ((hmem x).mp hx).2.le
  complete x hx hlt := by
    rcases Nat.lt_succ_iff_lt_or_eq.mp hlt with hlt | heq
    . exact List.mem_append_left l (h.complete x hx hlt)
    . exact List.mem_append_right copied ((hmem x).mpr ⟨hx S hS, heq⟩)

theorem snapshot (h : Covers slot history k copied) {S : Set α} (hS : S ∈ history)
    (hend : ∀ x ∈ S, slot x < k) : Snapshot history copied where
  sound := h.sound
  nodup := h.nodup
  complete x hx := h.complete x hx (hend x (hx S hS))

end Covers

end SlotScan

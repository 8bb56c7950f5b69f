import Mathlib.Data.List.Nodup
import Mathlib.Logic.Function.Basic

/-!
This module contains the custody of objects: every live object is linked in a shared structure, or
with the one holder that has taken it out to release it, or lost.
-/

universe u v

variable {α : Type u} {ι : Type v}

structure Custody (linked lost : List α) (held : ι → List α) (live : List α) : Prop where
  nodup : (linked ++ lost).Nodup
  held_nodup : ∀ i, (held i).Nodup
  held_apart : ∀ i, ∀ p ∈ held i, p ∉ linked ++ lost
  one_holder : ∀ i j, i ≠ j → ∀ p ∈ held i, p ∉ held j
  live_iff : ∀ p, p ∈ live ↔ p ∈ linked ++ lost ∨ ∃ i, p ∈ held i

namespace Custody

variable {linked linked' lost live live' ps : List α} {held : ι → List α}

theorem held_live (h : Custody linked lost held live) {i : ι} {p : α} (hp : p ∈ held i)
    : p ∈ live :=
  (h.live_iff p).mpr (.inr ⟨i, hp⟩)

theorem not_linked (h : Custody linked lost held live) {i : ι} {p : α} (hp : p ∈ held i)
    : p ∉ linked :=
  fun hmem => h.held_apart i p hp (List.mem_append_left lost hmem)

theorem nil (hnodup : linked.Nodup) (hlive : ∀ p, p ∈ live ↔ p ∈ linked)
    : Custody linked [] (fun _ : ι => []) live where
  nodup := by rwa [List.append_nil]
  held_nodup _ := .nil
  held_apart i p hp := by cases hp
  one_holder i j _ p hp := by cases hp
  live_iff p := by simp [hlive p]

theorem link (h : Custody linked lost held live) (hnodup : ps.Nodup) (hfresh : ∀ p ∈ ps, p ∉ live)
    (hlinked : linked'.Perm (ps ++ linked)) : Custody linked' lost held (ps ++ live) where
  nodup := by
    have hperm : (linked' ++ lost).Perm (ps ++ (linked ++ lost)) := by
      rw [← List.append_assoc]
      exact hlinked.append_right lost
    rw [hperm.nodup_iff, List.nodup_append']
    refine ⟨hnodup, h.nodup, fun p hp hp' => ?_⟩
    exact hfresh p hp ((h.live_iff p).mpr (.inl hp'))
  held_nodup := h.held_nodup
  held_apart i p hp hmem := by
    rw [List.mem_append, hlinked.mem_iff, List.mem_append, or_assoc, ← List.mem_append] at hmem
    rcases hmem with hmem | hmem
    . exact hfresh p hmem (h.held_live hp)
    . exact h.held_apart i p hp hmem
  one_holder := h.one_holder
  live_iff p := by
    rw [List.mem_append, h.live_iff, List.mem_append (s := linked'), hlinked.mem_iff]
    simp only [List.mem_append, or_assoc]

variable [DecidableEq ι]

theorem take (h : Custody linked lost held live) {i : ι} (hi : held i = []) {rest : List α}
    (hlinked : linked.Perm (ps ++ rest ++ linked'))
    : Custody linked' (rest ++ lost) (Function.update held i ps) live := by
  have hperm : (linked ++ lost).Perm (ps ++ (linked' ++ (rest ++ lost))) := by
    refine (hlinked.append_right lost).trans ?_
    simp only [List.append_assoc]
    apply List.Perm.append_left
    exact List.perm_append_comm_assoc ..
  obtain ⟨hps, hnodup, hdisjoint⟩ := List.nodup_append'.mp (hperm.nodup_iff.mp h.nodup)
  have hmem : ∀ p, p ∈ linked ++ lost ↔ p ∈ ps ∨ p ∈ linked' ++ (rest ++ lost) := fun p => by
    rw [hperm.mem_iff, List.mem_append]
  refine ⟨hnodup, ?_, ?_, ?_, ?_⟩
  . intro j
    rw [Function.update_apply]
    split
    . exact hps
    . exact h.held_nodup j
  . intro j p hp hp'
    rw [Function.update_apply] at hp
    split at hp
    . exact hdisjoint hp hp'
    . exact h.held_apart j p hp ((hmem p).mpr (.inr hp'))
  . intro j k hjk p hp hp'
    rw [Function.update_apply] at hp hp'
    split at hp <;> split at hp'
    . next hj hk => exact hjk (hj.trans hk.symm)
    -- what the others hold was not linked
    . exact h.held_apart k p hp' ((hmem p).mpr (.inl hp))
    . exact h.held_apart j p hp ((hmem p).mpr (.inl hp'))
    . exact h.one_holder j k hjk p hp hp'
  . intro p
    rw [h.live_iff, hmem]
    constructor
    . rintro ((hp | hp) | ⟨j, hp⟩)
      . exact .inr ⟨i, by rwa [Function.update_self]⟩
      . exact .inl hp
      . have hji : j ≠ i := by
          rintro rfl
          rw [hi] at hp
          cases hp
        exact .inr ⟨j, by rwa [Function.update_of_ne hji]⟩
    . rintro (hp | ⟨j, hp⟩)
      . exact .inl (.inr hp)
      . rw [Function.update_apply] at hp
        split at hp
        . exact .inl (.inl hp)
        . exact .inr ⟨j, hp⟩

theorem release (h : Custody linked lost held live) (i : ι)
    (hlive : ∀ p, p ∈ live' ↔ p ∈ live ∧ p ∉ held i)
    : Custody linked lost (Function.update held i []) live' := by
  have hsub : ∀ j p, p ∈ Function.update held i [] j → j ≠ i ∧ p ∈ held j := by
    intro j p hp
    rw [Function.update_apply] at hp
    split at hp
    . cases hp
    . next hji => exact ⟨hji, hp⟩
  refine ⟨h.nodup, ?_, ?_, ?_, ?_⟩
  . intro j
    rw [Function.update_apply]
    split
    . exact .nil
    . exact h.held_nodup j
  . exact fun j p hp => h.held_apart j p (hsub j p hp).2
  . exact fun j k hjk p hp hp' => h.one_holder j k hjk p (hsub j p hp).2 (hsub k p hp').2
  . intro p
    rw [hlive, h.live_iff]
    constructor
    . rintro ⟨hp | ⟨j, hp⟩, hi⟩
      . exact .inl hp
      . have hji : j ≠ i := by
          rintro rfl
          exact hi hp
        exact .inr ⟨j, by rwa [Function.update_of_ne hji]⟩
    . rintro (hp | ⟨j, hp⟩)
      . exact ⟨.inl hp, fun hi => h.held_apart i p hi hp⟩
      . obtain ⟨hji, hp⟩ := hsub j p hp
        exact ⟨.inr ⟨j, hp⟩, h.one_holder j i hji p hp⟩

end Custody

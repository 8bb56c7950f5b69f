import Mathlib.Logic.Basic

/-!
This module contains walks through tables of tables, as a processor makes them to translate an
address: a slot of a table is empty, refers to a table of the level below, or ends the walk.
-/

namespace TableWalk

universe u v w

inductive Slot (Node : Type u) (Leaf : Type v) where
  | absent
  | table (n : Node)
  | leaf (f : Leaf)

/-- `slot l n a` is the slot that the walk to `a` passes in table `n`, a table of level `l`. -/
structure Tables (Addr : Type w) (Node : Type u) (Leaf : Type v) where
  slot : Nat → Node → Addr → Slot Node Leaf

variable {Addr : Type w} {Node : Type u} {Leaf Leaf' : Type v}

/-- The walk through `l` levels of tables, with the level it ends at. -/
def walk (t : Tables Addr Node Leaf) (a : Addr) : Nat → Node → Option (Nat × Leaf)
  | 0, _ => none
  | l + 1, n =>
    match t.slot l n a with
    | .absent => none
    | .table m => walk t a l m
    | .leaf f => some (l, f)

/-- `P` holds at every table that the walk to `a` passes. -/
def Along (t : Tables Addr Node Leaf) (P : Nat → Node → Prop) (a : Addr) : Nat → Node → Prop
  | 0, _ => True
  | l + 1, n =>
    P l n ∧
      match t.slot l n a with
      | .table m => Along t P a l m
      | _ => True

def Slot.map (f : Leaf → Leaf') : Slot Node Leaf → Slot Node Leaf'
  | .absent => .absent
  | .table n => .table n
  | .leaf x => .leaf (f x)

variable {t : Tables Addr Node Leaf} {a b : Addr}

theorem walk_congr (h : ∀ l n, t.slot l n a = t.slot l n b) (l : Nat) (n : Node)
    : walk t a l n = walk t b l n := by
  induction l generalizing n with
  | zero => rfl
  | succ l ih =>
    rw [walk, walk, h]
    split
    . rfl
    . apply ih
    . rfl

theorem Along.cons {P : Nat → Node → Prop} {l : Nat} {n : Node} (hn : P l n)
    (hnext : ∀ m, t.slot l n a = .table m → Along t P a l m) : Along t P a (l + 1) n := by
  rw [Along]
  refine ⟨hn, ?_⟩
  split
  . next m hm => exact hnext m hm
  . trivial

theorem Along.mono {P Q : Nat → Node → Prop} {l : Nat} {n : Node} (hPQ : ∀ l n, P l n → Q l n)
    (h : Along t P a l n) : Along t Q a l n := by
  induction l generalizing n with
  | zero => trivial
  | succ l ih =>
    rw [Along] at h ⊢
    refine ⟨hPQ l n h.1, ?_⟩
    cases hs : t.slot l n a with
    | table m =>
      rw [hs] at h
      apply ih
      exact h.2
    | _ => trivial

/-- Two walks that read the same slots, up to what they make of a leaf, end at the same place. -/
theorem walk_map {t' : Tables Addr Node Leaf'} (f : Leaf → Leaf') (l : Nat) (n : Node)
    (h : Along t (fun l n => t'.slot l n a = (t.slot l n a).map f) a l n)
    : walk t' a l n = (walk t a l n).map (fun r => (r.1, f r.2)) := by
  induction l generalizing n with
  | zero => rfl
  | succ l ih =>
    rw [Along] at h
    rw [walk, walk, h.1]
    cases hs : t.slot l n a with
    | absent => rfl
    | table m =>
      rw [hs] at h
      apply ih
      exact h.2
    | leaf x => rfl

theorem exists_leaf {P : Nat → Node → Prop} {l k : Nat} {n : Node} {f : Leaf}
    (h : Along t P a l n) (hw : walk t a l n = some (k, f))
    : ∃ m, P k m ∧ t.slot k m a = .leaf f := by
  induction l generalizing n with
  | zero => cases hw
  | succ l ih =>
    rw [Along] at h
    rw [walk] at hw
    cases hs : t.slot l n a with
    | absent =>
      rw [hs] at hw
      cases hw
    | table m =>
      rw [hs] at h hw
      exact ih h.2 hw
    | leaf x =>
      rw [hs] at hw
      cases hw
      exact ⟨n, h.1, hs⟩

end TableWalk

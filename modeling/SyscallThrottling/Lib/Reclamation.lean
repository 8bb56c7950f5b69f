import Mathlib.Data.Set.Basic

/-!
This module contains deferred reclamation: readers find linked objects inside of sections and hold
what they found until they leave, writers unlink objects and release them later. The log of a run
keeps what readers find and when they leave, and the sections that are open when an object is
unlinked.
-/

namespace Reclamation

universe u

variable {α : Type u}

inductive Event (α : Type u) where
  | found (i : Nat) (p : α)
  | left (i : Nat)
  | unlinked (p : α) (sections : List Nat)

def Holds (L : List (Event α)) (i : Nat) (p : α) : Prop :=
  .found i p ∈ L ∧ .left i ∉ L

/-- Every section that was open when `p` was unlinked has ended. -/
def Grace (sections : List Nat) (L : List (Event α)) (p : α) : Prop :=
  ∀ before, .unlinked p before ∈ L → ∀ i ∈ before, i ∉ sections

/-- `p` was unlinked, and whoever still holds it is one of `waitFor`. -/
structure Retired (L : List (Event α)) (waitFor : List Nat) (p : α) : Prop where
  unlinked : ∃ before, .unlinked p before ∈ L
  holders : ∀ i, Holds L i p → i ∈ waitFor

structure Safe (sections : List Nat) (linked live : Set α) (L : List (Event α)) : Prop where
  subset : linked ⊆ live
  held : ∀ {i p}, Holds L i p → p ∈ live
  inside : ∀ {i p}, Holds L i p → i ∈ sections
  notLinked : ∀ {p before}, .unlinked p before ∈ L → p ∉ linked
  before : ∀ {i p before}, Holds L i p → .unlinked p before ∈ L → i ∈ before

theorem Holds.of_append {L ev : List (Event α)} {i : Nat} {p : α} (h : Holds (ev ++ L) i p)
    : .found i p ∈ ev ∨ Holds L i p := by
  obtain ⟨hfound, hleft⟩ := h
  rw [List.mem_append] at hfound hleft
  exact hfound.imp_right fun hfound => ⟨hfound, fun h => hleft (.inr h)⟩

theorem Holds.of_left {L : List (Event α)} {i j : Nat} {p : α} (h : Holds (.left j :: L) i p)
    : Holds L i p :=
  (of_append (show Holds ([.left j] ++ L) i p from h)).resolve_left (by simp)

theorem Holds.append {L ev : List (Event α)} {i : Nat} {p : α} (h : Holds L i p)
    (hev : .left i ∉ ev) : Holds (ev ++ L) i p :=
  ⟨List.mem_append_right ev h.1, fun hmem => (List.mem_append.mp hmem).elim hev h.2⟩

theorem Retired.append {L ev : List (Event α)} {waitFor : List Nat} {p : α}
    (h : Retired L waitFor p) (hev : ∀ i, .found i p ∉ ev) : Retired (ev ++ L) waitFor p where
  unlinked := h.unlinked.imp fun _ hmem => List.mem_append_right ev hmem
  holders i hi := h.holders i (hi.of_append.resolve_left (hev i))

namespace Safe

variable {sections : List Nat} {linked linked' live live' : Set α} {L : List (Event α)} {i : Nat}
  {p : α} {ps : List α}

theorem nil (h : linked ⊆ live) : Safe sections linked live [] where
  subset := h
  held h := by simp [Holds] at h
  inside h := by simp [Holds] at h
  notLinked h := by simp at h
  before h := by simp [Holds] at h

theorem enter (h : Safe sections linked live L) (i : Nat)
    : Safe (i :: sections) linked live L where
  subset := h.subset
  held := h.held
  inside hi := List.mem_cons_of_mem i (h.inside hi)
  notLinked := h.notLinked
  before := h.before

theorem find (h : Safe sections linked live L) (hi : i ∈ sections) (hps : ∀ p ∈ ps, p ∈ linked)
    : Safe sections linked live (ps.map (.found i) ++ L) where
  subset := h.subset
  held hj := by
    rcases hj.of_append with hmem | hj
    . obtain ⟨q, hq, heq⟩ := List.mem_map.mp hmem
      cases heq
      exact h.subset (hps _ hq)
    . exact h.held hj
  inside hj := by
    rcases hj.of_append with hmem | hj
    . obtain ⟨q, _, heq⟩ := List.mem_map.mp hmem
      cases heq
      exact hi
    . exact h.inside hj
  notLinked hmem := h.notLinked (by simpa using hmem)
  before hj hmem := by
    have hmem := by simpa using hmem
    rcases hj.of_append with hfound | hj
    . obtain ⟨q, hq, heq⟩ := List.mem_map.mp hfound
      cases heq
      -- what was found is linked
      exact absurd (hps _ hq) (h.notLinked hmem)
    . exact h.before hj hmem

theorem leave (h : Safe sections linked live L) (i : Nat)
    : Safe (sections.filter (· ≠ i)) linked live (.left i :: L) where
  subset := h.subset
  held hj := h.held hj.of_left
  inside {j p} hj := by
    have hne : j ≠ i := by
      rintro rfl
      exact hj.2 List.mem_cons_self
    have := h.inside hj.of_left
    simp [this, hne]
  notLinked hmem := h.notLinked (by simpa using hmem)
  before hj hmem :=
    h.before hj.of_left (by simpa using hmem)

theorem unlink (h : Safe sections linked live L)
    (hps : ∀ p, p ∈ linked' ↔ p ∈ linked ∧ p ∉ ps)
    : Safe sections linked' live (ps.map (.unlinked · sections) ++ L) where
  subset p hp := h.subset ((hps p).mp hp).1
  held hj := h.held (hj.of_append.resolve_left (by simp))
  inside hj := h.inside (hj.of_append.resolve_left (by simp))
  notLinked {p before} hmem hp := by
    obtain ⟨hp, hnot⟩ := (hps p).mp hp
    rcases List.mem_append.mp hmem with hmem | hmem
    . obtain ⟨q, hq, heq⟩ := List.mem_map.mp hmem
      cases heq
      exact hnot hq
    . exact h.notLinked hmem hp
  before {j p before} hj hmem := by
    have hj := hj.of_append.resolve_left (by simp)
    rcases List.mem_append.mp hmem with hmem | hmem
    . obtain ⟨q, _, heq⟩ := List.mem_map.mp hmem
      cases heq
      exact h.inside hj
    . exact h.before hj hmem

theorem link (ps : List α) (h : Safe sections linked live L)
    (hps : ∀ p ∈ linked', p ∈ ps ∨ p ∈ linked)
    (hnew : ∀ p ∈ ps, ∀ before, .unlinked p before ∉ L) (hlive : linked' ⊆ live')
    (hle : live ⊆ live') : Safe sections linked' live' L where
  subset := hlive
  held hj := hle (h.held hj)
  inside := h.inside
  notLinked hmem hp := (hps _ hp).elim (fun hp => hnew _ hp _ hmem) (h.notLinked hmem)
  before := h.before

theorem release (h : Safe sections linked live L) (hps : ∀ p ∈ ps, p ∉ linked)
    (hheld : ∀ p ∈ ps, ∀ i, ¬Holds L i p) (hlive : ∀ p ∈ live, p ∉ ps → p ∈ live')
    : Safe sections linked live' L where
  subset p hp := hlive p (h.subset hp) fun hmem => hps p hmem hp
  held {i p} hj := hlive p (h.held hj) fun hmem => hheld p hmem i hj
  inside := h.inside
  notLinked := h.notLinked
  before := h.before

theorem not_holds_of_grace (h : Safe sections linked live L) (hp : ∃ before, .unlinked p before ∈ L)
    (hgrace : Grace sections L p) (i : Nat) : ¬Holds L i p := by
  intro hi
  obtain ⟨before, hmem⟩ := hp
  exact hgrace before hmem i (h.before hi hmem) (h.inside hi)

theorem retired (h : Safe sections linked live L) (hp : ∃ before, .unlinked p before ∈ L)
    : Retired L sections p where
  unlinked := hp
  holders _ hi := h.inside hi

theorem not_holds_of_retired {waitFor : List Nat} (h : Safe sections linked live L)
    (hp : Retired L waitFor p) (hend : ∀ i ∈ waitFor, i ∉ sections) (i : Nat) : ¬Holds L i p := by
  intro hi
  exact hend i (hp.holders i hi) (h.inside hi)

end Safe

end Reclamation

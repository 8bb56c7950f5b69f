import Mathlib.Logic.Function.Basic

/-!
This module contains a small theory of interleaved execution: any number of threads with a local
state each, a shared state they all update one atomic step at a time, and an environment that takes
steps of its own. Every step may log events; the log of a run is kept newest first.
-/

namespace Interleaving

universe u

/--
The steps of an interleaved system over a shared state `σ` and thread-local states `τ`. A step that
is not enabled is `none`.
-/
structure System (σ τ Env Choice Ev : Type u) where
  env : Env → σ → Option (σ × List Ev)
  thread : Nat → Choice → σ → τ → Option (σ × τ × List Ev)

inductive Label (Env Choice : Type u) where
  | env (e : Env)
  | run (i : Nat) (ch : Choice)
  deriving DecidableEq

structure Config (σ τ Ev : Type u) where
  shared : σ
  locals : Nat → τ
  trace : List Ev

variable {σ τ Env Choice Ev : Type u} (A : System σ τ Env Choice Ev)

namespace System

def step (c : Config σ τ Ev) : Label Env Choice → Option (Config σ τ Ev)
  | .env e =>
    match A.env e c.shared with
    | some (s, ev) => some { c with shared := s, trace := ev ++ c.trace }
    | none => none
  | .run i ch =>
    match A.thread i ch c.shared (c.locals i) with
    | some (s, l, ev) =>
      some { shared := s, locals := Function.update c.locals i l, trace := ev ++ c.trace }
    | none => none

def exec (g : Config σ τ Ev → Label Env Choice → Bool) (c : Config σ τ Ev)
    : List (Label Env Choice) → Option (Config σ τ Ev)
  | [] => some c
  | l :: ls =>
    if g c l then
      match A.step c l with
      | some c' => exec g c' ls
      | none => none
    else
      none

/--
Runs whose every step satisfies the guard `G`, a condition on the label and on the state before the
step.
-/
inductive Run (G : Config σ τ Ev → Label Env Choice → Prop) (c : Config σ τ Ev)
    : Config σ τ Ev → Prop where
  | refl : Run G c c
  | tail {c' c'' : Config σ τ Ev} (l : Label Env Choice)
      : Run G c c' → G c' l → A.step c' l = some c'' → Run G c c''

abbrev Reaches (c c' : Config σ τ Ev) : Prop := A.Run (fun _ _ => True) c c'

variable {A}

theorem step_env {c c' : Config σ τ Ev} {e : Env} (h : A.step c (.env e) = some c')
    : ∃ s ev, A.env e c.shared = some (s, ev)
        ∧ c' = { c with shared := s, trace := ev ++ c.trace } := by
  simp only [step] at h
  split at h
  . next s ev heq => exact ⟨s, ev, heq, by simpa using h.symm⟩
  . simp at h

theorem step_run {c c' : Config σ τ Ev} {i : Nat} {ch : Choice}
    (h : A.step c (.run i ch) = some c')
    : ∃ s l ev, A.thread i ch c.shared (c.locals i) = some (s, l, ev)
        ∧ c' = ⟨s, Function.update c.locals i l, ev ++ c.trace⟩ := by
  simp only [step] at h
  split at h
  . next s l ev heq => exact ⟨s, l, ev, heq, by simpa using h.symm⟩
  . simp at h

/--
The members of a set of threads that the shared state shows are in local states with `f`, if only a
thread's own steps make it a member, and if those that leave it one go to such states.
-/
theorem step_marked {m : σ → Nat → Prop} {f : τ → Prop} {c c' : Config σ τ Ev}
    {l : Label Env Choice} (h : ∀ j, m c.shared j → f (c.locals j))
    (hs : A.step c l = some c')
    (henv : ∀ e s ev, A.env e c.shared = some (s, ev) → ∀ j, m s j → m c.shared j)
    (hthread : ∀ i ch s t ev, A.thread i ch c.shared (c.locals i) = some (s, t, ev) →
      ∀ j, m s j → (j = i ∧ f t) ∨ (j ≠ i ∧ m c.shared j))
    (j : Nat) (hj : m c'.shared j) : f (c'.locals j) := by
  cases l with
  | env e =>
    obtain ⟨s, ev, heq, rfl⟩ := step_env hs
    exact h j (henv e s ev heq j hj)
  | run i ch =>
    obtain ⟨s, t, ev, heq, rfl⟩ := step_run hs
    dsimp only
    rcases hthread i ch s t ev heq j hj with ⟨rfl, ht⟩ | ⟨hne, hmember⟩
    . rw [Function.update_self]
      exact ht
    . rw [Function.update_of_ne hne]
      exact h j hmember

namespace Run

variable {G G' : Config σ τ Ev → Label Env Choice → Prop} {c c' c'' : Config σ τ Ev}

theorem mono (hG : ∀ c l, G c l → G' c l) (h : A.Run G c c') : A.Run G' c c' := by
  induction h with
  | refl => exact .refl
  | tail l _ hg hs ih => exact .tail l ih (hG _ _ hg) hs

theorem reaches (h : A.Run G c c') : A.Reaches c c' :=
  h.mono (fun _ _ _ => trivial)

theorem trans (h : A.Run G c c') (h' : A.Run G c' c'') : A.Run G c c'' := by
  induction h' with
  | refl => exact h
  | tail l _ hg hs ih => exact .tail l ih hg hs

theorem head (l : Label Env Choice) (hg : G c l) (hs : A.step c l = some c')
    (h : A.Run G c' c'') : A.Run G c c'' :=
  trans (.tail l .refl hg hs) h

theorem invariant {I : Config σ τ Ev → Prop} (h : A.Run G c c') (h0 : I c)
    (hstep : ∀ c l c', I c → G c l → A.step c l = some c' → I c') : I c' := by
  induction h with
  | refl => exact h0
  | tail l _ hg hs ih => exact hstep _ l _ ih hg hs

theorem with_invariant {I : Config σ τ Ev → Prop} (h : A.Run G c c') (h0 : I c)
    (hstep : ∀ c l c', I c → G c l → A.step c l = some c' → I c')
    : A.Run (fun c l => G c l ∧ I c) c c' := by
  induction h with
  | refl => exact .refl
  | tail l hrun hg hs ih => exact .tail l ih ⟨hg, hrun.invariant h0 hstep⟩ hs

theorem trace_append (h : A.Run G c c') : ∃ seg, c'.trace = seg ++ c.trace := by
  induction h with
  | refl => exact ⟨[], rfl⟩
  | tail l _ _ hs ih =>
    obtain ⟨seg, ih⟩ := ih
    cases l with
    | env e =>
      obtain ⟨_, ev, _, rfl⟩ := step_env hs
      exact ⟨ev ++ seg, by simp [ih]⟩
    | run i ch =>
      obtain ⟨_, _, ev, _, rfl⟩ := step_run hs
      exact ⟨ev ++ seg, by simp [ih]⟩

theorem locals {i : Nat} (hG : ∀ c ch, ¬G c (.run i ch)) (h : A.Run G c c')
    : c'.locals i = c.locals i := by
  induction h with
  | refl => rfl
  | tail l _ hg hs ih =>
    rw [← ih]
    cases l with
    | env e =>
      obtain ⟨_, _, _, rfl⟩ := step_env hs
      rfl
    | run j ch =>
      obtain ⟨_, _, _, _, rfl⟩ := step_run hs
      have hij : i ≠ j := by
        rintro rfl
        exact hG _ ch hg
      exact Function.update_of_ne hij ..

end Run

theorem run_of_exec {g : Config σ τ Ev → Label Env Choice → Bool} {c c' : Config σ τ Ev}
    {ls : List (Label Env Choice)} (h : A.exec g c ls = some c')
    : A.Run (fun c l => g c l = true) c c' := by
  induction ls generalizing c with
  | nil =>
    simp only [exec, Option.some.injEq] at h
    subst h
    exact .refl
  | cons l ls ih =>
    simp only [exec] at h
    split at h
    . next hg =>
      split at h
      . next heq => exact .head l hg heq (ih h)
      . simp at h
    . simp at h

theorem run_exec_get {g : Config σ τ Ev → Label Env Choice → Bool} {c : Config σ τ Ev}
    {ls : List (Label Env Choice)} (h : (A.exec g c ls).isSome)
    : A.Run (fun c l => g c l = true) c ((A.exec g c ls).get h) :=
  run_of_exec (Option.some_get h).symm

section Own

structure Attributed (A : System σ τ Env Choice Ev) (owner : Ev → Option Nat) : Prop where
  env : ∀ {e s s' ev}, A.env e s = some (s', ev) → ∀ x ∈ ev, owner x = none
  thread : ∀ {i ch s l s' l' ev}, A.thread i ch s l = some (s', l', ev) → ∀ x ∈ ev, owner x = some i

def own (owner : Ev → Option Nat) (i : Nat) (trace : List Ev) : List Ev :=
  trace.filter (fun x => owner x = some i)

variable {owner : Ev → Option Nat} {i : Nat} {ev trace : List Ev}

theorem mem_own {x : Ev} : x ∈ own owner i trace ↔ x ∈ trace ∧ owner x = some i := by
  simp [own]

theorem own_append_self (h : ∀ x ∈ ev, owner x = some i)
    : own owner i (ev ++ trace) = ev ++ own owner i trace := by
  rw [own, List.filter_append, List.filter_eq_self.mpr (by simpa using h), own]

theorem own_append_other (h : ∀ x ∈ ev, owner x ≠ some i)
    : own owner i (ev ++ trace) = own owner i trace := by
  rw [own, List.filter_append, List.filter_eq_nil_iff.mpr (by simpa using h), List.nil_append, own]

/--
An assertion on a thread's local state and its own log needs no interference check: only its own
steps can break it.
-/
theorem Run.local_invariant {G : Config σ τ Ev → Label Env Choice → Prop} {c c' : Config σ τ Ev}
    (hA : Attributed A owner) {i : Nat} {P : τ → List Ev → Prop} (h : A.Run G c c')
    (h0 : P (c.locals i) (own owner i c.trace))
    (hstep : ∀ (c : Config σ τ Ev) ch s l ev, P (c.locals i) (own owner i c.trace) →
      G c (.run i ch) → A.thread i ch c.shared (c.locals i) = some (s, l, ev) →
        P l (ev ++ own owner i c.trace))
    : P (c'.locals i) (own owner i c'.trace) := by
  refine h.invariant (I := fun c => P (c.locals i) (own owner i c.trace)) h0 ?_
  intro c l c' hP hg hs
  cases l with
  | env e =>
    obtain ⟨s, ev, heq, rfl⟩ := step_env hs
    have hown : ∀ x ∈ ev, owner x ≠ some i := fun x hx => by simp [hA.env heq x hx]
    rw [own_append_other hown]
    exact hP
  | run j ch =>
    obtain ⟨s, t, ev, heq, rfl⟩ := step_run hs
    dsimp only
    by_cases hji : i = j
    . subst hji
      rw [own_append_self (hA.thread heq), Function.update_self]
      exact hstep c ch s t ev hP hg heq
    . -- the other threads write neither the local state nor the own log
      have hown : ∀ x ∈ ev, owner x ≠ some i := fun x hx =>
        by simp [hA.thread heq x hx, Ne.symm hji]
      rw [own_append_other hown, Function.update_of_ne hji]
      exact hP

end Own

/--
Thread `i` runs alone, by choices that satisfy `P`: what it makes of the shared state, its own state
and the log.
-/
inductive Solo (A : System σ τ Env Choice Ev) (i : Nat) (P : Choice → Prop)
    : σ → τ → List Ev → σ → τ → List Ev → Prop where
  | refl {s : σ} {l : τ} {trace : List Ev} : Solo A i P s l trace s l trace
  | head {s s₁ s' : σ} {l l₁ l' : τ} {trace ev trace' : List Ev} (ch : Choice) (hP : P ch)
    (h : A.thread i ch s l = some (s₁, l₁, ev))
    (hnext : Solo A i P s₁ l₁ (ev ++ trace) s' l' trace')
    : Solo A i P s l trace s' l' trace'

theorem Solo.run {i : Nat} {P : Choice → Prop} {c : Config σ τ Ev} {s s' : σ} {l l' : τ}
    {trace trace' : List Ev} (h : A.Solo i P s l trace s' l' trace') (hs : c.shared = s)
    (hl : c.locals i = l) (ht : c.trace = trace)
    : A.Run (fun _ lbl => ∃ ch, P ch ∧ lbl = .run i ch) c
        ⟨s', Function.update c.locals i l', trace'⟩ := by
  induction h generalizing c with
  | refl =>
    subst hs hl ht
    rw [Function.update_eq_self]
    exact .refl
  | @head _ s₁ _ _ l₁ _ _ ev _ ch hP h _ ih =>
    subst hs hl ht
    have hstep : A.step c (.run i ch)
        = some ⟨s₁, Function.update c.locals i l₁, ev ++ c.trace⟩ := by
      simp only [step, h]
    have hrun := ih (c := ⟨s₁, Function.update c.locals i l₁, ev ++ c.trace⟩) rfl
      (Function.update_self ..) rfl
    rw [Function.update_idem] at hrun
    exact .head _ ⟨ch, hP, rfl⟩ hstep hrun

/--
An assertion on the shared state and the log together with an assertion for each thread. The
thread's assertion may mention the shared state; the last clause of `thread` is the interference
check.
-/
structure Outline (A : System σ τ Env Choice Ev)
    (G : Config σ τ Ev → Label Env Choice → Prop) where
  shared : σ → List Ev → Prop
  thread : Nat → σ → List Ev → τ → Prop
  env_ok : ∀ (c : Config σ τ Ev) e s ev, G c (.env e) → shared c.shared c.trace
      → A.env e c.shared = some (s, ev)
      → shared s (ev ++ c.trace)
        ∧ ∀ j t, thread j c.shared c.trace t → thread j s (ev ++ c.trace) t
  thread_ok : ∀ (c : Config σ τ Ev) i ch s l ev, G c (.run i ch) → shared c.shared c.trace
      → thread i c.shared c.trace (c.locals i)
      → A.thread i ch c.shared (c.locals i) = some (s, l, ev)
      → shared s (ev ++ c.trace) ∧ thread i s (ev ++ c.trace) l
        ∧ ∀ j t, j ≠ i → thread j c.shared c.trace t → thread j s (ev ++ c.trace) t

namespace Outline

variable {G : Config σ τ Ev → Label Env Choice → Prop} (O : Outline A G)

def Holds (c : Config σ τ Ev) : Prop :=
  O.shared c.shared c.trace ∧ ∀ i, O.thread i c.shared c.trace (c.locals i)

theorem holds_step {c c' : Config σ τ Ev} {l : Label Env Choice} (h : O.Holds c) (hg : G c l)
    (hs : A.step c l = some c') : O.Holds c' := by
  obtain ⟨hsh, hth⟩ := h
  cases l with
  | env e =>
    obtain ⟨s, ev, heq, rfl⟩ := step_env hs
    have := O.env_ok c e s ev hg hsh heq
    exact ⟨this.1, fun i => this.2 i _ (hth i)⟩
  | run i ch =>
    obtain ⟨s, t, ev, heq, rfl⟩ := step_run hs
    obtain ⟨hs', hi, hj⟩ := O.thread_ok c i ch s t ev hg hsh (hth i) heq
    refine ⟨hs', fun j => ?_⟩
    by_cases hji : j = i
    . subst hji
      simpa using hi
    . simpa [hji] using hj j _ hji (hth j)

theorem holds_of_run {c c' : Config σ τ Ev} (h : A.Run G c c') (h0 : O.Holds c) : O.Holds c' :=
  h.invariant h0 (fun _ _ _ hc hg hs => O.holds_step hc hg hs)

end Outline

end System

theorem exists_update {P : τ → Prop} {locals locals' : Nat → τ} {i : Nat} {l : τ}
    (h : ∃ j, P (locals j)) (hlocals : locals' = Function.update locals i l)
    (hi : P (locals i) → P l) : ∃ j, P (locals' j) := by
  obtain ⟨j, hj⟩ := h
  refine ⟨j, ?_⟩
  rw [hlocals, Function.update_apply]
  split
  . next heq =>
    subst heq
    exact hi hj
  . exact hj

end Interleaving

import SyscallThrottling.Lib.Interleaving

/-!
This module contains linearizability: the operations of an interleaved system take effect one after
another, each at one of its own steps, and return what an object that is used sequentially returns.
-/

namespace Linearization

open Interleaving

universe u

/-- An object that is used sequentially: what an operation returns, and the state it leaves. -/
structure Object (Op Ret S : Type u) where
  apply : Op → S → Ret × S

structure Entry (Op Ret : Type u) where
  thread : Nat
  op : Op
  ret : Ret
  deriving DecidableEq

inductive Progress (Op Ret : Type u) where
  | idle
  | pending (op : Op)
  | effective (op : Op) (ret : Ret)

variable {Op Ret S : Type u}

namespace Object

variable (O : Object Op Ret S)

def replay (s : S) (H : List (Entry Op Ret)) : S :=
  H.foldl (fun s e => (O.apply e.op s).2) s

def Legal (s : S) : List (Entry Op Ret) → Prop
  | [] => True
  | e :: H => (O.apply e.op s).1 = e.ret ∧ Legal (O.apply e.op s).2 H

/-- What a step of a thread may do to its operation and to the state of the object. -/
inductive Advance : S → Progress Op Ret → S → Progress Op Ret → Prop where
  | skip {s : S} {p : Progress Op Ret} : Advance s p s p
  | call {s : S} (op : Op) : Advance s .idle s (.pending op)
  | effect {s : S} (op : Op)
      : Advance s (.pending op) (O.apply op s).2 (.effective op (O.apply op s).1)

variable {O}

theorem replay_append (s : S) (H H' : List (Entry Op Ret))
    : O.replay s (H ++ H') = O.replay (O.replay s H) H' :=
  List.foldl_append

theorem Legal.append {s : S} {H H' : List (Entry Op Ret)} (h : O.Legal s H)
    (h' : O.Legal (O.replay s H) H') : O.Legal s (H ++ H') := by
  induction H generalizing s with
  | nil => exact h'
  | cons e H ih => exact ⟨h.1, ih h.2 h'⟩

theorem Legal.ret_of_mem {s : S} {H : List (Entry Op Ret)} (h : O.Legal s H) {e : Entry Op Ret}
    (he : e ∈ H) : ∃ s, (O.apply e.op s).1 = e.ret := by
  induction H generalizing s with
  | nil => cases he
  | cons x H ih =>
    cases he with
    | head => exact ⟨s, h.1⟩
    | tail _ he => exact ih h.2 he

end Object

/-- What a step emits that takes the operation of thread `i` from one point to another. -/
def emitted (i : Nat) : Progress Op Ret → Progress Op Ret → List (Entry Op Ret)
  | .pending _, .effective op ret => [⟨i, op, ret⟩]
  | _, _ => []

def Progress.entries (i : Nat) : Progress Op Ret → List (Entry Op Ret)
  | .effective op ret => [⟨i, op, ret⟩]
  | _ => []

section

variable {O : Object Op Ret S} {s s' : S} {p p' : Progress Op Ret} {i j : Nat}

theorem filter_emitted_self : (emitted i p p').filter (fun e => e.thread = i) = emitted i p p' := by
  unfold emitted
  split <;> simp

theorem filter_emitted_other (h : i ≠ j)
    : (emitted i p p').filter (fun e => e.thread = j) = [] := by
  unfold emitted
  split <;> simp [h]

theorem emitted_self : emitted i p p = [] := by
  cases p <;> rfl

namespace Object.Advance

theorem legal (h : O.Advance s p s' p') (i : Nat) : O.Legal s (emitted i p p') := by
  cases h with
  | skip =>
    rw [emitted_self]
    trivial
  | call op => trivial
  | effect op => exact ⟨rfl, trivial⟩

theorem replay (h : O.Advance s p s' p') (i : Nat) : O.replay s (emitted i p p') = s' := by
  cases h with
  | skip =>
    rw [emitted_self]
    rfl
  | call op => rfl
  | effect op => rfl

theorem entries (h : O.Advance s p s' p') (i : Nat)
    : p.entries i ++ emitted i p p' = p'.entries i := by
  cases h with
  | skip => rw [emitted_self, List.append_nil]
  | call op => rfl
  | effect op => rfl

end Object.Advance

end

section

variable {σ τ Env Choice Ev : Type u} (A : System σ τ Env Choice Ev)
  (progress : τ → Progress Op Ret)

def emit (c c' : Config σ τ Ev) : Label Env Choice → List (Entry Op Ret)
  | .env _ => []
  | .run i _ => emitted i (progress (c.locals i)) (progress (c'.locals i))

/-- The operations of the run from `c` with the labels `ls`, in the order they take effect. -/
def history (c : Config σ τ Ev) : List (Label Env Choice) → List (Entry Op Ret)
  | [] => []
  | l :: ls =>
    match A.step c l with
    | none => []
    | some c' => emit progress c c' l ++ history c' ls

/--
`H` explains `c`: its operations are those that have taken effect, each once, they return what the
object returns, and they leave the state that is seen in `c`.
-/
structure Explained (O : Object Op Ret S) (abs : σ → S) (s₀ : S) (c : Config σ τ Ev)
    (H : List (Entry Op Ret)) : Prop where
  legal : O.Legal s₀ H
  state : O.replay s₀ H = abs c.shared
  entries : ∀ i, H.filter (fun e => e.thread = i) = (progress (c.locals i)).entries i

/-- The steps of the system are steps of the object, wherever `I` holds. -/
structure Refines (O : Object Op Ret S) (abs : σ → S) (I : Config σ τ Ev → Prop) : Prop where
  env : ∀ {c e c'}, I c → A.step c (.env e) = some c' → abs c'.shared = abs c.shared
  run : ∀ {c i ch c'}, I c → A.step c (.run i ch) = some c' →
    O.Advance (abs c.shared) (progress (c.locals i)) (abs c'.shared) (progress (c'.locals i))

variable {A progress} {O : Object Op Ret S} {abs : σ → S} {I : Config σ τ Ev → Prop} {s₀ : S}
  {c c' : Config σ τ Ev} {H : List (Entry Op Ret)}

theorem Explained.initial (h : ∀ i, progress (c.locals i) = .idle)
    : Explained progress O abs (abs c.shared) c [] where
  legal := trivial
  state := rfl
  entries i := by
    rw [h]
    rfl

theorem Explained.step {l : Label Env Choice} (hR : Refines A progress O abs I) (hI : I c)
    (h : Explained progress O abs s₀ c H) (hs : A.step c l = some c')
    : Explained progress O abs s₀ c' (H ++ emit progress c c' l) := by
  cases l with
  | env e =>
    have habs := hR.env hI hs
    obtain ⟨s, ev, _, rfl⟩ := System.step_env hs
    rw [emit, List.append_nil]
    exact ⟨h.legal, h.state.trans habs.symm, h.entries⟩
  | run i ch =>
    have hadv := hR.run hI hs
    obtain ⟨s, t, ev, _, rfl⟩ := System.step_run hs
    simp only [emit, Function.update_self] at hadv ⊢
    refine ⟨?_, ?_, ?_⟩
    . apply h.legal.append
      rw [h.state]
      apply hadv.legal
    . rw [Object.replay_append, h.state]
      apply hadv.replay
    . intro j
      dsimp only
      rw [List.filter_append, h.entries]
      by_cases hj : j = i
      . subst hj
        rw [filter_emitted_self, hadv.entries, Function.update_self]
      . rw [filter_emitted_other (Ne.symm hj), List.append_nil, Function.update_of_ne hj]

theorem exec_append (ls ls' : List (Label Env Choice)) (h : A.exec (fun _ _ => true) c ls = some c')
    : A.exec (fun _ _ => true) c (ls ++ ls') = A.exec (fun _ _ => true) c' ls' := by
  induction ls generalizing c with
  | nil =>
    cases h
    rfl
  | cons l ls ih =>
    simp only [System.exec, if_true, List.cons_append] at h ⊢
    split at h
    . next heq => rw [ih h]
    . cases h

theorem exists_exec (h : A.Reaches c c') : ∃ ls, A.exec (fun _ _ => true) c ls = some c' := by
  induction h with
  | refl => exact ⟨[], rfl⟩
  | tail l _ _ hs ih =>
    obtain ⟨ls, ih⟩ := ih
    refine ⟨ls ++ [l], ?_⟩
    rw [exec_append ls [l] ih]
    simp only [System.exec, if_true, hs]

theorem history_cons {l : Label Env Choice} (h : A.step c l = some c')
    (ls : List (Label Env Choice))
    : history A progress c (l :: ls) = emit progress c c' l ++ history A progress c' ls := by
  rw [history, h]

theorem history_append (ls ls' : List (Label Env Choice))
    (h : A.exec (fun _ _ => true) c ls = some c')
    : history A progress c (ls ++ ls') = history A progress c ls ++ history A progress c' ls' := by
  induction ls generalizing c with
  | nil =>
    cases h
    rfl
  | cons l ls ih =>
    simp only [System.exec, if_true] at h
    split at h
    . next heq => rw [List.cons_append, history_cons heq, history_cons heq, ih h, List.append_assoc]
    . cases h

theorem Explained.exists_apply (h : Explained progress O abs s₀ c H) {i : Nat} {op : Op} {ret : Ret}
    (hi : progress (c.locals i) = .effective op ret) : ∃ s, (O.apply op s).1 = ret := by
  have hmem : (⟨i, op, ret⟩ : Entry Op Ret) ∈ H.filter (fun e => e.thread = i) := by
    rw [h.entries, hi]
    apply List.mem_singleton_self
  apply h.legal.ret_of_mem (List.mem_filter.mp hmem).1

theorem Explained.exec (hR : Refines A progress O abs I)
    (hI : ∀ c l c', I c → A.step c l = some c' → I c') (h0 : I c) {ls : List (Label Env Choice)}
    (h : Explained progress O abs s₀ c H) (hs : A.exec (fun _ _ => true) c ls = some c')
    : Explained progress O abs s₀ c' (H ++ history A progress c ls) := by
  induction ls generalizing c H with
  | nil =>
    cases hs
    rw [history, List.append_nil]
    exact h
  | cons l ls ih =>
    simp only [System.exec, if_true] at hs
    split at hs
    . next c₁ heq =>
      have hnext := ih (hI _ _ _ h0 heq) (h.step hR h0 heq) hs
      rw [history_cons heq, ← List.append_assoc]
      exact hnext
    . cases hs

end

end Linearization

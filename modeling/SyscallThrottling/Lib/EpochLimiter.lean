import Mathlib.Data.List.Basic

/-!
This module contains the log of a limiter that works in epochs: a counter of tokens that is taken
down one by one and set anew at the start of an epoch. Logs are kept newest first.
-/

namespace EpochLimiter

inductive Entry where
  | take (time : Nat)
  | refill (value : Int) (time : Nat)
  deriving DecidableEq

abbrev Log := List Entry

namespace Entry

def time : Entry → Nat
  | take t => t
  | refill _ t => t

def After (H : Nat) (t : Nat) : Entry → Prop
  | take _ => True
  | refill _ t' => t' + H ≤ t

end Entry

namespace Log

def value (init : Int) : Log → Int
  | [] => init
  | .take _ :: l => value init l
  | .refill v _ :: _ => v

def spent : Log → Nat
  | [] => 0
  | .take _ :: l => spent l + 1
  | .refill _ _ :: _ => 0

def inWindow (a H : Nat) : Log → Nat
  | [] => 0
  | .take t :: l => (if a ≤ t ∧ t < a + H then 1 else 0) + inWindow a H l
  | .refill _ _ :: l => inWindow a H l

/--
No epoch spends more than its refill, time does not go back, and refills are at least `H` apart.
-/
inductive Valid (init : Int) (H : Nat) : Log → Prop where
  | nil : Valid init H []
  | take {l : Log} (t : Nat)
    : Valid init H l → (∀ e ∈ l, e.time ≤ t) → spent l < value init l → Valid init H (.take t :: l)
  | refill {l : Log} (v : Int) (t : Nat)
    : Valid init H l → (∀ e ∈ l, e.time ≤ t) → (∀ e ∈ l, e.After H t) → 0 ≤ v
      → Valid init H (.refill v t :: l)

variable {init : Int} {H a cap : Nat} {l : Log}

theorem inWindow_eq_zero (h : ∀ e ∈ l, e.time < a) : inWindow a H l = 0 := by
  induction l with
  | nil => rfl
  | cons e l ih =>
    have hl : inWindow a H l = 0 := ih fun e he => h e (List.mem_cons_of_mem _ he)
    have he := h e List.mem_cons_self
    cases e with
    | take t =>
      dsimp only [Entry.time] at he
      rw [inWindow, hl, if_neg (by omega)]
    | refill v t => rw [inWindow, hl]

theorem Valid.spent_le (h : Valid init H l) (h0 : 0 ≤ init) : spent l ≤ value init l := by
  cases h with
  | nil => simpa [spent, value] using h0
  | take t _ _ hlt =>
    simp only [spent, value]
    omega
  | refill v t _ _ _ hv => simpa [spent, value] using hv

theorem Valid.tail {e : Entry} (h : Valid init H (e :: l)) : Valid init H l := by
  cases h <;> assumption

theorem Valid.time_le {e : Entry} (h : Valid init H (e :: l)) : ∀ e' ∈ l, e'.time ≤ e.time := by
  cases h <;> assumption

def Capped (cap : Nat) (l : Log) : Prop :=
  ∀ v t, Entry.refill v t ∈ l → v ≤ cap

theorem Capped.tail {e : Entry} (h : Capped cap (e :: l)) : Capped cap l :=
  fun v t hmem => h v t (List.mem_cons_of_mem _ hmem)

theorem value_le (hinit : init ≤ cap) (hcap : Capped cap l) : value init l ≤ cap := by
  induction l with
  | nil => exact hinit
  | cons e l ih =>
    cases e with
    | take t => exact ih hcap.tail
    | refill v t => exact hcap v t List.mem_cons_self

theorem Valid.inWindow_le_spent (h : Valid init H l)
    (hno : ∀ v t, Entry.refill v t ∈ l → t < a) : inWindow a H l ≤ spent l := by
  induction h with
  | nil => exact Nat.le_refl _
  | take t _ _ _ ih =>
    have := ih fun v t hmem => hno v t (List.mem_cons_of_mem _ hmem)
    rw [inWindow, spent]
    split <;> omega
  | refill v t _ htime _ _ _ =>
    -- whatever is older than this refill lies in front of the window
    rw [inWindow, inWindow_eq_zero]
    . exact Nat.zero_le _
    . intro e he
      exact Nat.lt_of_le_of_lt (htime e he) (hno v t List.mem_cons_self)

theorem Valid.inWindow_le_spent_add (h : Valid init H l) (h0 : 0 ≤ init) (hinit : init ≤ cap)
    (hcap : Capped cap l) (hbefore : ∀ e ∈ l, e.time < a + H)
    : inWindow a H l ≤ spent l + cap := by
  induction h with
  | nil => exact Nat.zero_le _
  | take t _ _ _ ih =>
    have := ih hcap.tail fun e he => hbefore e (List.mem_cons_of_mem _ he)
    rw [inWindow, spent]
    split <;> omega
  | refill v t hl htime hafter _ _ =>
    have ht : t < a + H := hbefore _ List.mem_cons_self
    -- the refill before this one lies in front of the window
    have hle := hl.inWindow_le_spent (a := a) (by
      intro v' t' hmem
      have : t' + H ≤ t := hafter _ hmem
      omega)
    have hspent := hl.spent_le h0
    have hvalue := value_le hinit hcap.tail
    rw [inWindow, spent]
    omega

theorem Valid.inWindow_le (h : Valid init H l) (h0 : 0 ≤ init) (hinit : init ≤ cap)
    (hcap : Capped cap l) (a : Nat) : inWindow a H l ≤ 2 * cap := by
  induction l with
  | nil => exact Nat.zero_le _
  | cons e l ih =>
    -- entries behind the window do not count: cut the log at its end
    by_cases hlt : e.time < a + H
    . have hbefore : ∀ e' ∈ e :: l, e'.time < a + H := by
        intro e' he'
        rcases List.mem_cons.mp he' with rfl | he'
        . exact hlt
        . exact Nat.lt_of_le_of_lt (h.time_le e' he') hlt
      have hle := h.inWindow_le_spent_add h0 hinit hcap hbefore
      have hspent := h.spent_le h0
      have hvalue := value_le hinit hcap
      omega
    . have := ih h.tail hcap.tail
      cases e with
      | take t =>
        dsimp only [Entry.time] at hlt
        rw [inWindow, if_neg (by omega)]
        omega
      | refill v t => rwa [inWindow]

theorem Valid.inWindow_le_of_no_refill (h : Valid init H l) (h0 : 0 ≤ init) (hinit : init ≤ cap)
    (hcap : Capped cap l) (hno : ∀ v t, Entry.refill v t ∈ l → ¬(a ≤ t ∧ t < a + H))
    : inWindow a H l ≤ cap := by
  induction l with
  | nil => exact Nat.zero_le _
  | cons e l ih =>
    by_cases hlt : e.time < a + H
    . have hle := h.inWindow_le_spent (a := a) (by
        intro v t hmem
        have hnot := hno v t hmem
        have hbefore : t < a + H := by
          rcases List.mem_cons.mp hmem with rfl | hmem
          . exact hlt
          . exact Nat.lt_of_le_of_lt (h.time_le _ hmem) hlt
        omega)
      have hspent := h.spent_le h0
      have hvalue := value_le hinit hcap
      omega
    . have := ih h.tail hcap.tail fun v t hmem => hno v t (List.mem_cons_of_mem _ hmem)
      cases e with
      | take t =>
        dsimp only [Entry.time] at hlt
        rw [inWindow, if_neg (by omega)]
        omega
      | refill v t => rwa [inWindow]

def refillsIn (a W : Nat) : Log → Nat
  | [] => 0
  | .take _ :: l => refillsIn a W l
  | .refill _ t :: l => (if a ≤ t ∧ t < a + W then 1 else 0) + refillsIn a W l

theorem Valid.inWindow_le_spent_add_refills {W : Nat} (h : Valid init H l) (h0 : 0 ≤ init)
    (hinit : init ≤ cap) (hcap : Capped cap l) (hbefore : ∀ e ∈ l, e.time < a + W)
    : inWindow a W l ≤ spent l + cap * refillsIn a W l := by
  induction h with
  | nil => exact Nat.zero_le _
  | take t _ _ _ ih =>
    have := ih hcap.tail fun e he => hbefore e (List.mem_cons_of_mem _ he)
    rw [inWindow, spent, refillsIn]
    split <;> omega
  | @refill l v t hl htime _ _ ih =>
    have ht : t < a + W := hbefore _ List.mem_cons_self
    by_cases ha : a ≤ t
    . -- what was left before the refill is one more limit
      have := ih hcap.tail fun e he => hbefore e (List.mem_cons_of_mem _ he)
      have hspent := hl.spent_le h0
      have hvalue := value_le hinit hcap.tail
      rw [inWindow, spent, refillsIn, if_pos ⟨ha, ht⟩, Nat.mul_add]
      omega
    . rw [inWindow, inWindow_eq_zero]
      . exact Nat.zero_le _
      . intro e he
        have := htime e he
        omega

/-- However wide the window is, it holds one limit for each of its refills, and one more. -/
theorem Valid.inWindow_le_refills (h : Valid init H l) (h0 : 0 ≤ init) (hinit : init ≤ cap)
    (hcap : Capped cap l) (a W : Nat) : inWindow a W l ≤ cap * (refillsIn a W l + 1) := by
  induction l with
  | nil => exact Nat.zero_le _
  | cons e l ih =>
    by_cases hlt : e.time < a + W
    . have hle := h.inWindow_le_spent_add_refills (a := a) (W := W) h0 hinit hcap (by
        intro e' he'
        rcases List.mem_cons.mp he' with rfl | he'
        . exact hlt
        . exact Nat.lt_of_le_of_lt (h.time_le e' he') hlt)
      have hspent := h.spent_le h0
      have hvalue := value_le hinit hcap
      rw [Nat.mul_add]
      omega
    . have := ih h.tail hcap.tail
      cases e with
      | take t =>
        dsimp only [Entry.time] at hlt
        rw [inWindow, refillsIn, if_neg (by omega)]
        omega
      | refill v t =>
        dsimp only [Entry.time] at hlt
        rw [inWindow, refillsIn, if_neg (by omega), Nat.zero_add]
        exact this

/-- Refills in the window are `H` apart, the last one of them `H` before `b`. -/
theorem Valid.mul_refillsIn_le {W b : Nat} (h : Valid init H l) (hab : a ≤ b)
    (hlast : ∀ v t, Entry.refill v t ∈ l → t < a + W → t + H ≤ b)
    : H * refillsIn a W l ≤ b - a := by
  induction l generalizing b with
  | nil => exact Nat.zero_le _
  | cons e l ih =>
    have hl : ∀ {b}, a ≤ b → (∀ v t, Entry.refill v t ∈ l → t < a + W → t + H ≤ b) →
        H * refillsIn a W l ≤ b - a := fun hab hlast => ih h.tail hab hlast
    cases e with
    | take t => exact hl hab fun v t' hmem => hlast v t' (List.mem_cons_of_mem _ hmem)
    | refill v t =>
      have hrest := fun v t' hmem => hlast v t' (List.mem_cons_of_mem _ hmem)
      rw [refillsIn]
      split
      . next hin =>
        have hfirst := hlast v t List.mem_cons_self hin.2
        have := hl (b := t) hin.1 (by
          intro v' t' hmem _
          cases h with
          | refill _ _ _ _ hafter _ => exact hafter _ hmem)
        rw [Nat.mul_add]
        omega
      . rw [Nat.zero_add]
        exact hl hab hrest

theorem Valid.refillsIn_le (h : Valid init H l) (hH : 0 < H) (a k : Nat)
    : refillsIn a (k * H) l ≤ k := by
  have hle := h.mul_refillsIn_le (a := a) (W := k * H) (b := a + (k * H + H - 1)) (by omega) (by
    intro v t _ ht
    omega)
  have hlt : H * refillsIn a (k * H) l < H * (k + 1) := by
    rw [Nat.mul_add, Nat.mul_comm H k]
    omega
  have := Nat.lt_of_mul_lt_mul_left hlt
  omega

theorem Valid.inWindow_le_epochs (h : Valid init H l) (hH : 0 < H) (h0 : 0 ≤ init)
    (hinit : init ≤ cap) (hcap : Capped cap l) (a k : Nat)
    : inWindow a (k * H) l ≤ (k + 1) * cap := by
  calc
    inWindow a (k * H) l ≤ cap * (refillsIn a (k * H) l + 1) :=
      h.inWindow_le_refills h0 hinit hcap a (k * H)
    _ ≤ cap * (k + 1) := Nat.mul_le_mul_left cap (Nat.succ_le_succ (h.refillsIn_le hH a k))
    _ = (k + 1) * cap := Nat.mul_comm cap (k + 1)

theorem Valid.spent_epoch {newer : Log} (h : Valid init H (newer ++ l)) (h0 : 0 ≤ init)
    : spent l ≤ value init l := by
  induction newer with
  | nil => exact h.spent_le h0
  | cons e newer ih => exact ih h.tail

theorem Valid.of_append {seg : Log} (h : Valid init H (seg ++ l))
    : Valid (value init l - spent l) H seg := by
  have hvalue : ∀ seg : Log, value init (seg ++ l) - spent (seg ++ l)
      = value (value init l - spent l) seg - spent seg := by
    intro seg
    induction seg with
    | nil => simp [value, spent]
    | cons e seg ih =>
      cases e with
      | take t =>
        simp only [List.cons_append, value, spent]
        omega
      | refill v t => simp [value, spent]
  induction seg with
  | nil => exact .nil
  | cons e seg ih =>
    have hseg := ih h.tail
    have hmem : ∀ e ∈ seg, e ∈ seg ++ l := fun e he => List.mem_append_left l he
    cases h with
    | take t _ htime hlt =>
      have hlt : (spent (seg ++ l) : Int) < value init (seg ++ l) := hlt
      have := hvalue seg
      exact .take t hseg (fun e he => htime e (hmem e he)) (by omega)
    | refill v t _ htime hafter hv =>
      exact .refill v t hseg (fun e he => htime e (hmem e he)) (fun e he => hafter e (hmem e he)) hv

end Log

end EpochLimiter

import SyscallThrottling.Impl.Hidden
import SyscallThrottling.Lib.LeakyMean
import SyscallThrottling.Spec.Samples

/-!
This module contains the exponential mean of the handler, which rounds at every step, against the
exact one.
-/

namespace Throttling

open LeakyMean

namespace Monitor

def exponentialAfter (m : UInt64) (xs : List Nat) : UInt64 :=
  xs.foldl (fun m x => nextExponential m (UInt64.ofNat x)) m

section Step

variable {m : UInt64} {x : Nat}

theorem toNat_scaled (hx : x < 2 ^ 40) : (UInt64.ofNat x <<< 10).toNat = 1024 * x := by
  rw [UInt64.toNat_shiftLeft, UInt64.toNat_ofNat', Nat.shiftLeft_eq]
  have h10 : (10 : UInt64).toNat % 64 = 10 := rfl
  rw [h10]
  omega

theorem toNat_update (m : UInt64) (hx : x < 2 ^ 40)
    : (m - (m >>> 2) + ((UInt64.ofNat x <<< 10) >>> 2)).toNat = step 4 m.toNat (256 * x) := by
  have hm : (m >>> 2).toNat = m.toNat / 4 := by
    rw [UInt64.toNat_shiftRight]
    exact Nat.shiftRight_eq_div_pow m.toNat 2
  have hx' : ((UInt64.ofNat x <<< 10) >>> 2).toNat = 256 * x := by
    rw [UInt64.toNat_shiftRight, toNat_scaled hx]
    have h2 : (2 : UInt64).toNat % 64 = 2 := rfl
    rw [h2, Nat.shiftRight_eq_div_pow]
    omega
  have hle : m >>> 2 ≤ m := by
    rw [UInt64.le_iff_toNat_le, hm]
    exact Nat.div_le_self m.toNat 4
  have hbound : step 4 m.toNat (256 * x) < 2 ^ 64 := by
    have := m.toNat_lt
    unfold step
    omega
  rw [UInt64.toNat_add, UInt64.toNat_sub_of_le _ _ hle, hm, hx']
  exact Nat.mod_eq_of_lt hbound

theorem nextExponential_zero (x : UInt64) : nextExponential 0 x = x <<< 10 := by
  rw [nextExponential, if_pos rfl]

theorem nextExponential_of_ne_zero (hm : m ≠ 0) (x : UInt64)
    : nextExponential m x = m - (m >>> 2) + ((x <<< 10) >>> 2) :=
  if_neg hm

theorem toNat_nextExponential (hm : m ≠ 0) (hx : x < 2 ^ 40)
    : (nextExponential m (UInt64.ofNat x)).toNat = step 4 m.toNat (256 * x) := by
  rw [nextExponential_of_ne_zero hm, toNat_update m hx]

theorem toNat_pos (hm : m ≠ 0) : 0 < m.toNat := by
  rw [Nat.pos_iff_ne_zero]
  intro h0
  exact hm (UInt64.toNat_inj.mp h0)

theorem nextExponential_ne_zero (hm : m ≠ 0) (hx : x < 2 ^ 40)
    : nextExponential m (UInt64.ofNat x) ≠ 0 := by
  intro h0
  have hpos := step_pos (d := 4) (b := 256 * x) (by decide) (toNat_pos hm)
  rw [← toNat_nextExponential hm hx, h0] at hpos
  exact Nat.lt_irrefl 0 hpos

end Step

section Run

variable {m : UInt64} {xs : List Nat}

theorem exponentialAfter_concat (ys : List Nat) (x : Nat)
    : exponentialAfter m (ys ++ [x])
        = nextExponential (exponentialAfter m ys) (UInt64.ofNat x) := by
  rw [exponentialAfter, List.foldl_append]
  rfl

/-- Behind its first non-zero value the stored mean is a leaky mean with truncation. -/
theorem toNat_exponentialAfter (hm : m ≠ 0) (hxs : ∀ x ∈ xs, x < 2 ^ 40)
    : (exponentialAfter m xs).toNat = run 4 m.toNat (xs.map (256 * ·)) := by
  induction xs generalizing m with
  | nil => rfl
  | cons x xs ih =>
    rw [List.forall_mem_cons] at hxs
    have := ih (nextExponential_ne_zero hm hxs.1) hxs.2
    rwa [toNat_nextExponential hm hxs.1] at this

theorem exponentialAfter_ne_zero (hm : m ≠ 0) (hxs : ∀ x ∈ xs, x < 2 ^ 40)
    : exponentialAfter m xs ≠ 0 := by
  intro h0
  have hpos : 0 < run 4 m.toNat (xs.map (256 * ·)) := run_pos (by decide) (toNat_pos hm)
  rw [← toNat_exponentialAfter hm hxs, h0] at hpos
  exact Nat.lt_irrefl 0 hpos

theorem foldl_expStep (e : ℚ) (xs : List Nat)
    : xs.foldl expStep e = exactRun 4 e (xs.map (256 * ·)) := by
  induction xs generalizing e with
  | nil => rfl
  | cons x xs ih =>
    have hstep : exactStep 4 e (256 * x) = expStep e x := by
      unfold exactStep expStep
      push_cast
      ring
    rw [List.foldl_cons, ih, List.map_cons, exactRun, exactRun, List.foldl_cons, hstep]

theorem exponentialAfter_error {e : ℚ} (hm : m ≠ 0) (hxs : ∀ x ∈ xs, x < 2 ^ 40)
    (hle : e ≤ m.toNat) (hlt : (m.toNat : ℚ) < e + 3)
    : xs.foldl expStep e ≤ (exponentialAfter m xs).toNat
      ∧ ((exponentialAfter m xs).toNat : ℚ) < xs.foldl expStep e + 3 := by
  have hd : ((4 : Nat) : ℚ) - 1 = 3 := by norm_num
  rw [toNat_exponentialAfter hm hxs, foldl_expStep, ← hd]
  exact run_error (by decide) hle (by rwa [hd])

end Run

/-- The update of the mean `m` by a sample `x`, which loses no bit to the word size. -/
structure Updates (m m' : UInt64) (x : Nat) : Prop where
  word : m' = m - (m >>> 2) + ((UInt64.ofNat x <<< 10) >>> 2)
  scaled : (UInt64.ofNat x <<< 10).toNat = 1024 * x
  exact : m'.toNat = m.toNat - m.toNat / 4 + 1024 * x / 4

structure Rounded (m₀ : UInt64) (B : Nat) (xs : List Nat) : Prop where
  ne_zero : exponentialAfter m₀ xs ≠ 0
  le : (exponentialAfter m₀ xs).toNat ≤ 1024 * B
  exact_le : xs.foldl expStep m₀.toNat ≤ (exponentialAfter m₀ xs).toNat
  lt_exact : ((exponentialAfter m₀ xs).toNat : ℚ) < xs.foldl expStep m₀.toNat + 3

theorem exponential_never_drifts (m₀ : UInt64) (xs : List Nat) (B : Nat) (hm₀ : 0 < m₀)
    (hB₀ : m₀.toNat ≤ 1024 * B) (hxs : ∀ x ∈ xs, x < 2 ^ 40) (hB : ∀ x ∈ xs, x ≤ B)
    : (∀ ys x, ys ++ [x] <+: xs →
        Updates (exponentialAfter m₀ ys) (exponentialAfter m₀ (ys ++ [x])) x)
      ∧ ∀ ys, ys <+: xs → Rounded m₀ B ys := by
  have hne : m₀ ≠ 0 := by
    rintro rfl
    exact absurd hm₀ (by decide)
  constructor
  . intro ys x hpre
    have hys : ∀ y ∈ ys, y < 2 ^ 40 := by
      intro y hy
      exact hxs y (hpre.subset (List.mem_append_left [x] hy))
    have hx : x < 2 ^ 40 := hxs x (hpre.subset (List.mem_append_right ys List.mem_cons_self))
    have hm := exponentialAfter_ne_zero hne hys
    rw [exponentialAfter_concat]
    constructor
    . exact nextExponential_of_ne_zero hm _
    . exact toNat_scaled hx
    . rw [toNat_nextExponential hm hx, step]
      omega
  . intro ys hpre
    have hys : ∀ y ∈ ys, y < 2 ^ 40 := fun y hy => hxs y (hpre.subset hy)
    obtain ⟨hle, hlt⟩ := exponentialAfter_error hne hys le_rfl (by linarith)
    refine ⟨exponentialAfter_ne_zero hne hys, ?_, hle, hlt⟩
    have hbs : ∀ b ∈ ys.map (256 * ·), b ≤ 256 * B := by
      intro b hb
      obtain ⟨y, hy, rfl⟩ := List.mem_map.mp hb
      exact Nat.mul_le_mul_left 256 (hB y (hpre.subset hy))
    have hmax := run_le_max (d := 4) (m := m₀.toNat) (by decide) hbs
    rw [toNat_exponentialAfter hne hys]
    omega

theorem exponential_never_drifts_ones
    : Rounded 1 1 [1, 0, 1] :=
  (exponential_never_drifts 1 [1, 0, 1] 1 (by decide) (by decide) (by decide) (by decide)).2 _
    (List.prefix_refl _)

def Follows (m : UInt64) (xs : List Nat) : Prop :=
  expMean xs ≤ m.toNat ∧ (m.toNat : ℚ) < expMean xs + 3

section Start

variable {x : Nat} {xs : List Nat}

theorem scaled_ne_zero (hx : x < 2 ^ 40) (h0 : x ≠ 0) : UInt64.ofNat x <<< 10 ≠ 0 := by
  intro h
  have hscaled := toNat_scaled hx
  rw [h, UInt64.toNat_zero] at hscaled
  omega

theorem exponentialAfter_cons
    : exponentialAfter 0 (x :: xs) = exponentialAfter (UInt64.ofNat x <<< 10) xs := by
  rw [exponentialAfter, List.foldl_cons, nextExponential_zero]
  rfl

theorem exponentialAfter_zeros (h0 : ∀ x ∈ xs, x = 0) : exponentialAfter 0 xs = 0 := by
  induction xs with
  | nil => rfl
  | cons x xs ih =>
    rw [List.forall_mem_cons] at h0
    rw [exponentialAfter_cons, h0.1]
    exact ih h0.2

theorem foldl_expStep_zeros (h0 : ∀ x ∈ xs, x = 0) : xs.foldl expStep 0 = 0 := by
  induction xs with
  | nil => rfl
  | cons x xs ih =>
    rw [List.forall_mem_cons] at h0
    rw [List.foldl_cons, h0.1]
    simpa [expStep] using ih h0.2

theorem expMean_zeros (h0 : ∀ x ∈ xs, x = 0) : expMean xs = 0 := by
  cases xs with
  | nil => rfl
  | cons x xs =>
    rw [List.forall_mem_cons] at h0
    rw [expMean, h0.1, Nat.cast_zero, mul_zero]
    exact foldl_expStep_zeros h0.2

theorem follows_of_head (hxs : ∀ y ∈ x :: xs, y < 2 ^ 40) (h0 : x ≠ 0)
    : Follows (exponentialAfter 0 (x :: xs)) (x :: xs) := by
  rw [List.forall_mem_cons] at hxs
  have hcast : ((UInt64.ofNat x <<< 10).toNat : ℚ) = 1024 * x := by
    rw [toNat_scaled hxs.1, Nat.cast_mul, Nat.cast_ofNat]
  rw [exponentialAfter_cons]
  apply exponentialAfter_error (scaled_ne_zero hxs.1 h0) hxs.2
  . exact hcast.ge
  . linarith

theorem follows_of_zeros (h0 : ∀ x ∈ xs, x = 0) : Follows (exponentialAfter 0 xs) xs := by
  rw [Follows, exponentialAfter_zeros h0, expMean_zeros h0]
  norm_num

/-- After samples of 0 the first other one counts in full, where a quarter of it should. -/
theorem not_follows {zs : List Nat} (hzs : zs ≠ []) (h0 : ∀ z ∈ zs, z = 0) (hx : x < 2 ^ 40)
    (hx0 : x ≠ 0) : ¬Follows (exponentialAfter 0 (zs ++ [x])) (zs ++ [x]) := by
  have hstored : (exponentialAfter 0 (zs ++ [x])).toNat = 1024 * x := by
    rw [exponentialAfter_concat, exponentialAfter_zeros h0, nextExponential_zero, toNat_scaled hx]
  have hexact : expMean (zs ++ [x]) = 256 * x := by
    cases zs with
    | nil => exact absurd rfl hzs
    | cons z zs =>
      rw [List.forall_mem_cons] at h0
      rw [List.cons_append, expMean, h0.1, Nat.cast_zero, mul_zero, List.foldl_append,
        foldl_expStep_zeros h0.2, List.foldl_cons, List.foldl_nil, expStep]
      ring
  rintro ⟨_, hlt⟩
  rw [hstored, hexact] at hlt
  have hpos : (1 : ℚ) ≤ x := by exact_mod_cast Nat.one_le_iff_ne_zero.mpr hx0
  push_cast at hlt
  linarith

theorem zeros_of_follows {zs rest : List Nat} (hzs : zs ≠ []) (h0 : ∀ z ∈ zs, z = 0)
    (hxs : ∀ x ∈ rest, x < 2 ^ 40)
    (h : ∀ ys, ys <+: rest → Follows (exponentialAfter 0 (zs ++ ys)) (zs ++ ys))
    : ∀ x ∈ rest, x = 0 := by
  induction rest generalizing zs with
  | nil => simp
  | cons x rest ih =>
    rw [List.forall_mem_cons] at hxs ⊢
    have hx : x = 0 := by
      by_contra hx0
      exact not_follows hzs h0 hxs.1 hx0 (h [x] (by simp))
    have h0' : ∀ z ∈ zs ++ [x], z = 0 := by
      simpa [or_imp, forall_and, hx] using h0
    refine ⟨hx, ih (by simp) h0' hxs.2 ?_⟩
    intro ys hys
    rw [List.append_assoc]
    exact h (x :: ys) ((List.prefix_cons_inj x).mpr hys)

theorem follows_iff (hxs : ∀ x ∈ xs, x < 2 ^ 40)
    : (∀ ys, ys <+: xs → ys ≠ [] → Follows (exponentialAfter 0 ys) ys)
        ↔ (xs.head? ≠ some 0 ∨ ∀ x ∈ xs, x = 0) := by
  cases xs with
  | nil => simp
  | cons x xs =>
    constructor
    . intro h
      by_cases hx : x = 0
      . right
        subst hx
        have hrest := zeros_of_follows (List.cons_ne_nil 0 []) (by simp)
          (fun y hy => hxs y (List.mem_cons_of_mem _ hy))
          (fun ys hys => h (0 :: ys) ((List.prefix_cons_inj 0).mpr hys) (by simp))
        simpa using hrest
      . left
        simpa using hx
    . intro h ys hpre hne
      have hys : ∀ y ∈ ys, y < 2 ^ 40 := fun y hy => hxs y (hpre.subset hy)
      rcases h with hhead | hzero
      . cases ys with
        | nil => exact absurd rfl hne
        | cons y ys =>
          rw [List.cons_prefix_cons] at hpre
          refine follows_of_head hys ?_
          simpa [hpre.1] using hhead
      . exact follows_of_zeros fun y hy => hzero y (hpre.subset hy)

end Start

end Monitor

end Throttling

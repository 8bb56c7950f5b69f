import SyscallThrottling.Impl.Dev

/-!
This module contains what a copy to user space stores, and when all of it gets there.
-/

namespace Throttling

variable {K : Platform}

section Sizes

@[simp]
theorem length_intBytes (x : Int) : (intBytes x).length = 4 := rfl

namespace UserWrite

theorem length_threadStats (arg : ThreadStatsCr) : (threadStats arg).bytes.length = 40 := rfl

theorem length_syscallStats (arg : SyscallCr) : (syscallStats arg).bytes.length = 40 := by
  simp [bytes]

theorem length_checkSyscall (arg : CheckSyscallCr) : (checkSyscall arg).bytes.length = 8 := rfl

theorem length_checkUid (arg : CheckUidCr) : (checkUid arg).bytes.length = 8 := rfl

theorem length_checkProg (arg : CheckPrognameCr) : (checkProg arg).bytes.length = 20 := by
  simp [bytes]

theorem length_fetchAll (arg : FetchAll) : (fetchAll arg).bytes.length = 16 := rfl

private theorem length_flatMap {α : Type} (f : α → List UInt8) (n : Nat)
    (hf : ∀ x, (f x).length = n) (l : List α) : (l.flatMap f).length = l.length * n := by
  rw [List.length_flatMap]
  simp [hf, List.map_const']

theorem length_syscalls (l : List Int) : (syscalls l).bytes.length = l.length * 4 :=
  length_flatMap intBytes 4 length_intBytes l

theorem length_uids (l : List UInt32) : (uids l).bytes.length = l.length * 4 :=
  length_flatMap Word.bytes32 4 Word.length_bytes32 l

theorem length_progs (l : List Comm) : (progs l).bytes.length = l.length * 16 :=
  length_flatMap (fun name : Comm => name.toList) 16 (fun _ => by simp) l

theorem bytes_upTo (w : UserWrite) (n : Nat) : (w.upTo n).bytes = w.bytes.take n := by
  unfold upTo
  split
  . next heq => rw [heq, List.take_length]
  . rfl

theorem getElem?_progs {l : List Comm} {i j : Nat} {name : Comm} (hi : l[i]? = some name)
    (hj : j < 16) : (progs l).bytes[16 * i + j]? = some name[j] := by
  induction l generalizing i with
  | nil => simp at hi
  | cons name' l ih =>
    simp only [bytes, List.flatMap_cons]
    cases i with
    | zero =>
      obtain rfl : name' = name := by simpa using hi
      rw [List.getElem?_append_left (by simp; omega), Nat.mul_zero, Nat.zero_add,
        Vector.getElem?_toList, Vector.getElem?_eq_getElem hj]
    | succ i =>
      rw [List.getElem?_append_right (by simp; omega), Vector.length_toList]
      have : 16 * (i + 1) + j - 16 = 16 * i + j := by omega
      rw [this]
      exact ih hi

theorem take_bytes_progs {l l' : List Comm} {n : Nat} (hlen : l.length = l'.length)
    (h : ∀ i name name', l[i]? = some name → l'[i]? = some name'
      → ∀ j (_ : j < 16), 16 * i + j < n → name[j] = name'[j])
    : (progs l).bytes.take n = (progs l').bytes.take n := by
  apply List.ext_getElem?
  intro k
  by_cases hk : k < n
  . rw [List.getElem?_take_of_lt hk, List.getElem?_take_of_lt hk]
    by_cases hi : k / 16 < l.length
    . have hk' : k = 16 * (k / 16) + k % 16 := by omega
      have hj : k % 16 < 16 := by omega
      have hget := List.getElem?_eq_getElem hi
      have hget' := List.getElem?_eq_getElem (hlen ▸ hi)
      rw [hk', getElem?_progs hget hj, getElem?_progs hget' hj,
        h _ _ _ hget hget' _ hj (by omega)]
    . rw [List.getElem?_eq_none, List.getElem?_eq_none]
      . rw [length_progs]
        omega
      . rw [length_progs]
        omega
  . rw [List.getElem?_take_eq_none (by omega), List.getElem?_take_eq_none (by omega)]

theorem upTo_length (w : UserWrite) : w.upTo w.bytes.length = w := if_pos rfl

theorem upTo_of_lt {w : UserWrite} {n : Nat} (h : n < w.bytes.length) : w.upTo n = .torn w n :=
  if_neg h.ne

end UserWrite

end Sizes

variable {env : Env} {k size : Nat}

theorem Env.copied_le (env : Env) (k size : Nat) : env.copied k size ≤ size := by
  unfold copied
  split <;> omega

theorem Env.copied_eq (h : size ≤ env.copyToUser k size) (hlt : size < 2 ^ 63)
    : env.copied k size = size := by
  rw [copied, if_pos hlt, Nat.min_eq_left h]

theorem Env.copied_huge (env : Env) (k : Nat) (h : 2 ^ 63 ≤ size) : env.copied k size = 0 := by
  rw [copied, if_neg (by omega)]

theorem copyOut_state (env : Env) (k : Nat) (w : UserWrite) (s : State K)
    : (copyOut env k w s).state = s := rfl

theorem copyOut_ok {w : UserWrite} (h : env.copied k w.bytes.length = w.bytes.length) (s : State K)
    : copyOut env k w s = { ret := 0, out := [w], state := s } := by
  simp only [copyOut, h, if_true, UserWrite.upTo_length]

theorem copyOut_of_copies {w : UserWrite} (h : ∀ k size, size ≤ env.copyToUser k size)
    (hlt : w.bytes.length < 2 ^ 63) (s : State K)
    : copyOut env k w s = { ret := 0, out := [w], state := s } :=
  copyOut_ok (Env.copied_eq (h _ _) hlt) s

theorem copyOut_cases (env : Env) (k : Nat) (w : UserWrite) (s : State K)
    : (env.copied k w.bytes.length = w.bytes.length
        ∧ copyOut env k w s = { ret := 0, out := [w], state := s })
      ∨ (env.copied k w.bytes.length < w.bytes.length
        ∧ copyOut env k w s
          = { ret := -EFAULT, out := [.torn w (env.copied k w.bytes.length)], state := s }) := by
  rcases (env.copied_le k w.bytes.length).eq_or_lt with heq | hlt
  . exact .inl ⟨heq, copyOut_ok heq s⟩
  . right
    refine ⟨hlt, ?_⟩
    rw [copyOut, if_neg hlt.ne, UserWrite.upTo_of_lt hlt]

end Throttling

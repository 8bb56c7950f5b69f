import Mathlib.Data.Fintype.Basic
import SyscallThrottling.Impl.Mod

/-!
This module contains the invariant of the syscall registry: the flag array, the hash table, the
syscall table and the counter describe the same set of system calls.
-/

namespace Throttling

variable {K : Platform}

namespace SyscallRegistry

def numbers (r : SyscallRegistry K) : Finset (Fin K.nrSyscalls) :=
  HashTable.keys HackedSyscall.syscallNr r.hackedSyscallHash

def Settled (T : SyscallTable K) (r : SyscallRegistry K) (n : Fin K.nrSyscalls) : Prop :=
  (n ∈ r.numbers ∧ r.syscallArray n = 1 ∧ r.hackedSyscallTbl n = .throttlingWrapper)
    ∨ (n ∉ r.numbers ∧ r.syscallArray n = 0 ∧ r.hackedSyscallTbl n = T.entry n)

structure Linked (T : SyscallTable K) (r : SyscallRegistry K) : Prop where
  wf : HashTable.WellFormed HackedSyscall.syscallNr (sysBucket K) r.hackedSyscallHash
  original : ∀ x ∈ r.hackedSyscallHash.toList, x.originalSyscall = T.entry x.syscallNr

structure Consistent (T : SyscallTable K) (r : SyscallRegistry K) : Prop extends Linked T r where
  settled : ∀ n, Settled T r n
  len : r.sysLen = r.numbers.card

variable {T : SyscallTable K} {r : SyscallRegistry K}

section Updates

variable (r) (n m : Fin K.nrSyscalls) (h : Handler) (v : Int) (node : HackedSyscall K)
  (stats : SyscallStats)

@[simp]
theorem numbers_setTbl : (r.setTbl n h).numbers = r.numbers := rfl

@[simp]
theorem syscallArray_setTbl : (r.setTbl n h).syscallArray = r.syscallArray := rfl

@[simp]
theorem sysLen_setTbl : (r.setTbl n h).sysLen = r.sysLen := rfl

@[simp]
theorem hackedSyscallTbl_setTbl
    : (r.setTbl n h).hackedSyscallTbl m = if m = n then h else r.hackedSyscallTbl m := by
  simp [setTbl, Function.update_apply]

@[simp]
theorem numbers_setArray : (r.setArray n v).numbers = r.numbers := rfl

@[simp]
theorem hackedSyscallTbl_setArray : (r.setArray n v).hackedSyscallTbl = r.hackedSyscallTbl := rfl

@[simp]
theorem sysLen_setArray : (r.setArray n v).sysLen = r.sysLen := rfl

@[simp]
theorem syscallArray_setArray
    : (r.setArray n v).syscallArray m = if m = n then v else r.syscallArray m := by
  simp [setArray, Function.update_apply]

@[simp]
theorem numbers_hashAdd : (r.hashAdd node stats).numbers = insert node.syscallNr r.numbers :=
  HashTable.keys_add _ _

@[simp]
theorem syscallArray_hashAdd : (r.hashAdd node stats).syscallArray = r.syscallArray := rfl

@[simp]
theorem hackedSyscallTbl_hashAdd
    : (r.hashAdd node stats).hackedSyscallTbl = r.hackedSyscallTbl := rfl

@[simp]
theorem sysLen_hashAdd : (r.hashAdd node stats).sysLen = r.sysLen := rfl

@[simp]
theorem syscallArray_hashDel : (r.hashDel node).syscallArray = r.syscallArray := rfl

@[simp]
theorem hackedSyscallTbl_hashDel : (r.hashDel node).hackedSyscallTbl = r.hackedSyscallTbl := rfl

@[simp]
theorem sysLen_hashDel : (r.hashDel node).sysLen = r.sysLen := rfl

@[simp]
theorem numbers_addLen : (r.addLen v).numbers = r.numbers := rfl

@[simp]
theorem syscallArray_addLen : (r.addLen v).syscallArray = r.syscallArray := rfl

@[simp]
theorem hackedSyscallTbl_addLen : (r.addLen v).hackedSyscallTbl = r.hackedSyscallTbl := rfl

@[simp]
theorem sysLen_addLen : (r.addLen v).sysLen = r.sysLen + v := rfl

end Updates

namespace Linked

variable {n : Fin K.nrSyscalls} {node : HackedSyscall K}

theorem numbers_hashDel (h : Linked T r) (hnode : node ∈ r.hackedSyscallHash.toList)
    : (r.hashDel node).numbers = r.numbers.erase node.syscallNr :=
  h.wf.keys_del hnode

theorem setTbl (h : Linked T r) (n : Fin K.nrSyscalls) (e : Handler) : Linked T (r.setTbl n e) :=
  ⟨h.wf, h.original⟩

theorem setArray (h : Linked T r) (n : Fin K.nrSyscalls) (v : Int) : Linked T (r.setArray n v) :=
  ⟨h.wf, h.original⟩

theorem addLen (h : Linked T r) (d : Int) : Linked T (r.addLen d) :=
  ⟨h.wf, h.original⟩

theorem hashAdd (h : Linked T r) (hnode : node.syscallNr ∉ r.numbers)
    (horig : node.originalSyscall = T.entry node.syscallNr) (stats : SyscallStats)
    : Linked T (r.hashAdd node stats) where
  wf := h.wf.add hnode
  original := by
    intro x hx
    rcases HashTable.mem_toList_add.mp hx with rfl | hx
    . exact horig
    . exact h.original x hx

theorem hashDel (h : Linked T r) (node : HackedSyscall K) : Linked T (r.hashDel node) where
  wf := h.wf.del node
  original := by
    intro x hx
    exact h.original x ((HashTable.mem_toList_del h.wf.nodup_toList).mp hx).2

theorem lookup_eq_none (h : Linked T r) : r.lookup n = none ↔ n ∉ r.numbers :=
  h.wf.find?_eq_none

theorem lookup_eq_some (h : Linked T r)
    : r.lookup n = some node ↔ node ∈ r.hackedSyscallHash.toList ∧ node.syscallNr = n :=
  h.wf.find?_eq_some

theorem lookup_original (h : Linked T r) (hl : r.lookup n = some node)
    : node.originalSyscall = T.entry n := by
  obtain ⟨hmem, rfl⟩ := h.lookup_eq_some.mp hl
  exact h.original node hmem

end Linked

namespace Consistent

variable {n : Fin K.nrSyscalls}

theorem initial (T : SyscallTable K) (stats : Ptr → SyscallStats) (now : Nat)
    : Consistent T (State.loaded K T stats now).sys where
  wf := .empty
  original := by simp [State.loaded, State.initial]
  settled := by
    intro n
    right
    simp [State.loaded, State.initial, numbers]
  len := by simp [State.loaded, State.initial, numbers]

theorem mem_numbers_iff (h : Consistent T r) : n ∈ r.numbers ↔ r.syscallArray n = 1 := by
  rcases h.settled n with ⟨h1, h2, _⟩ | ⟨h1, h2, _⟩ <;> simp [h1, h2]

theorem not_mem_numbers_iff (h : Consistent T r) : n ∉ r.numbers ↔ r.syscallArray n = 0 := by
  rcases h.settled n with ⟨h1, h2, _⟩ | ⟨h1, h2, _⟩ <;> simp [h1, h2]

theorem hook (h : Consistent T r) (node : HackedSyscall K) (stats : SyscallStats)
    (hn : node.syscallNr ∉ r.numbers)
    (horig : node.originalSyscall = r.hackedSyscallTbl node.syscallNr)
    : Consistent T
      ((((r.setTbl node.syscallNr .throttlingWrapper).setArray node.syscallNr 1).hashAdd
        node stats).addLen 1) := by
  -- an entry without a node is the original one, so the node keeps the right handler
  have htbl : r.hackedSyscallTbl node.syscallNr = T.entry node.syscallNr := by
    rcases h.settled node.syscallNr with ⟨hin, _⟩ | ⟨_, _, htbl⟩
    . exact absurd hin hn
    . exact htbl
  refine ⟨?_, ?_, ?_⟩
  . refine (Linked.hashAdd ((h.toLinked.setTbl _ _).setArray _ _) ?_ ?_ stats).addLen 1
    . simpa using hn
    . rw [horig, htbl]
  . intro m
    by_cases hm : m = node.syscallNr
    . left
      simp [hm]
    . rcases h.settled m with hm' | hm'
      . left
        simpa [hm] using hm'
      . right
        simpa [hm] using hm'
  . simp only [sysLen_addLen, sysLen_hashAdd, sysLen_setArray, sysLen_setTbl, numbers_addLen,
      numbers_hashAdd, numbers_setArray, numbers_setTbl]
    rw [Finset.card_insert_of_notMem hn, h.len]
    simp

theorem unhook (h : Consistent T r) (node : HackedSyscall K) (hl : r.lookup n = some node)
    : Consistent T ((((r.setTbl n node.originalSyscall).setArray n 0).hashDel node).addLen (-1)) := by
  obtain ⟨hmem, hnr⟩ := h.lookup_eq_some.mp hl
  have horig := h.lookup_original hl
  have hin : n ∈ r.numbers := HashTable.mem_keys.mpr ⟨node, hmem, hnr⟩
  have hlinked := (h.toLinked.setTbl n node.originalSyscall).setArray n 0
  have hnumbers : (((r.setTbl n node.originalSyscall).setArray n 0).hashDel node).numbers
      = r.numbers.erase n := by
    rw [hlinked.numbers_hashDel hmem, hnr]
    rfl
  refine ⟨(hlinked.hashDel node).addLen (-1), ?_, ?_⟩
  . intro m
    by_cases hm : m = n
    . right
      rw [numbers_addLen, hnumbers]
      simp [hm, horig]
    . rcases h.settled m with hm' | hm'
      . left
        simpa [hm, hnumbers] using hm'
      . right
        simpa [hm, hnumbers] using hm'
  . simp only [sysLen_addLen, sysLen_hashDel, sysLen_setArray, sysLen_setTbl, numbers_addLen,
      hnumbers]
    rw [Finset.card_erase_of_mem hin, h.len]
    have : 0 < r.numbers.card := Finset.card_pos.mpr ⟨n, hin⟩
    omega

end Consistent

end SyscallRegistry

open SyscallRegistry

section Calls

variable (env : Env) (n : Fin K.nrSyscalls) (s : State K)

theorem registerSystemCall_cases
    : let res := registerSystemCall env (n : Nat) s
      ((env.kmalloc 0 40 = false ∨ env.kmalloc 1 40 = false)
        ∧ res.1 = -ENOMEM ∧ res.2.sys = s.sys)
      ∨ (env.kmalloc 0 40 = true ∧ env.kmalloc 1 40 = true ∧ s.sys.syscallArray n ≠ 0
        ∧ res.1 = -EEXIST ∧ res.2.sys = s.sys)
      ∨ (env.kmalloc 0 40 = true ∧ env.kmalloc 1 40 = true ∧ s.sys.syscallArray n = 0
        ∧ res.1 = 0 ∧ ∃ node stats, node.syscallNr = n
          ∧ node.originalSyscall = s.sys.hackedSyscallTbl n
          ∧ res.2.sys
            = (((s.sys.setTbl n .throttlingWrapper).setArray n 1).hashAdd node stats).addLen 1) := by
  dsimp only
  unfold registerSystemCall
  rw [arrayIndexNospec_coe]
  cases h0 : env.kmalloc 0 40 with
  | false => simp [Heap.kmalloc_eq]
  | true =>
    cases h1 : env.kmalloc 1 40 with
    | false => simp [Heap.kmalloc_eq]
    | true =>
      by_cases ha : s.sys.syscallArray n = 0
      . right
        right
        simp only [ha, ne_eq, not_true_eq_false, if_false]
        exact ⟨trivial, trivial, trivial, rfl, _, _, rfl, rfl, rfl⟩
      . simp [Heap.kmalloc_eq, ha]

theorem deregisterSystemCall_cases
    : let res := deregisterSystemCall (n : Nat) s
      (s.sys.syscallArray n = 0 ∧ res.1 = -ENOENT ∧ res.2.sys = s.sys)
      ∨ (s.sys.syscallArray n ≠ 0 ∧ s.sys.lookup n = none ∧ res.1 = -EFAULT ∧ res.2.sys = s.sys)
      ∨ (s.sys.syscallArray n ≠ 0 ∧ res.1 = 0 ∧ ∃ node, s.sys.lookup n = some node
        ∧ res.2.sys
          = (((s.sys.setTbl n node.originalSyscall).setArray n 0).hashDel node).addLen (-1)) := by
  dsimp only
  unfold deregisterSystemCall
  rw [arrayIndexNospec_coe]
  by_cases ha : s.sys.syscallArray n = 0
  . simp [ha]
  . cases hl : s.sys.lookup n with
    | none => simp [ha, hl]
    | some node => simp [ha, hl]

variable {s} {T : SyscallTable K}

theorem SyscallRegistry.Consistent.registerSystemCall (h : Consistent T s.sys)
    : Consistent T (registerSystemCall env (n : Nat) s).2.sys := by
  rcases registerSystemCall_cases env n s with ⟨_, _, hs⟩ | ⟨_, _, _, _, hs⟩ | ⟨_, _, ha, _, hs⟩
  . rwa [hs]
  . rwa [hs]
  . obtain ⟨node, stats, rfl, horig, hs⟩ := hs
    rw [hs]
    exact h.hook node stats (h.not_mem_numbers_iff.mpr ha) horig

theorem SyscallRegistry.Consistent.deregisterSystemCall (h : Consistent T s.sys)
    : Consistent T (deregisterSystemCall (n : Nat) s).2.sys := by
  rcases deregisterSystemCall_cases n s with ⟨_, _, hs⟩ | ⟨_, _, _, hs⟩ | ⟨_, _, node, hl, hs⟩
  . rwa [hs]
  . rwa [hs]
  . rw [hs]
    exact h.unhook node hl

end Calls

inductive SyscallOp (K : Platform) where
  | register (env : Env) (n : Fin K.nrSyscalls)
  | deregister (n : Fin K.nrSyscalls)

namespace SyscallOp

def apply (s : State K) : SyscallOp K → Int × State K
  | .register env n => registerSystemCall env (n : Nat) s
  | .deregister n => deregisterSystemCall (n : Nat) s

def run (s : State K) (ops : List (SyscallOp K)) : State K :=
  ops.foldl (fun s op => (op.apply s).2) s

theorem consistent_run {T : SyscallTable K} {s : State K} (h : Consistent T s.sys)
    (ops : List (SyscallOp K)) : Consistent T (run s ops).sys := by
  induction ops generalizing s with
  | nil => exact h
  | cons op ops ih =>
    apply ih
    cases op with
    | register env n => exact h.registerSystemCall env n
    | deregister n => exact h.deregisterSystemCall n

end SyscallOp

theorem syscall_registry_agrees (T : SyscallTable K) (stats : Ptr → SyscallStats) (now : Nat)
    (ops : List (SyscallOp K))
    : let s := SyscallOp.run (State.loaded K T stats now) ops
      let nodes := s.sys.hackedSyscallHash.toList
      (∀ n,
        (s.sys.syscallArray n = 1 ∧ nodes.countP (fun x => x.syscallNr = n) = 1
          ∧ s.sys.hackedSyscallTbl n = .throttlingWrapper
          ∧ ∀ x ∈ nodes, x.syscallNr = n → x.originalSyscall = T.entry n)
        ∨ (s.sys.syscallArray n = 0 ∧ nodes.countP (fun x => x.syscallNr = n) = 0
          ∧ s.sys.hackedSyscallTbl n = T.entry n))
      ∧ s.sys.sysLen = (Finset.univ.filter fun n => s.sys.syscallArray n = 1).card
      ∧ (∀ env (n : Fin K.nrSyscalls), (registerSystemCall env (n : Nat) s).1 = 0
          ↔ s.sys.syscallArray n = 0 ∧ env.kmalloc 0 40 = true ∧ env.kmalloc 1 40 = true)
      ∧ (∀ n : Fin K.nrSyscalls, (deregisterSystemCall (n : Nat) s).1 = 0
          ↔ s.sys.syscallArray n = 1)
      ∧ ∀ n : Fin K.nrSyscalls, (deregisterSystemCall (n : Nat) s).1 ≠ -EFAULT := by
  intro s nodes
  have h : Consistent T s.sys := SyscallOp.consistent_run (.initial T stats now) ops
  refine ⟨?_, ?_, ?_, ?_, ?_⟩
  . intro n
    have hcount : nodes.countP (fun x => x.syscallNr = n) = if n ∈ s.sys.numbers then 1 else 0 :=
      h.wf.countP_toList n
    rcases h.settled n with ⟨hin, ha, ht⟩ | ⟨hout, ha, ht⟩
    . left
      refine ⟨ha, ?_, ht, ?_⟩
      . rw [hcount, if_pos hin]
      . rintro x hx rfl
        exact h.original x hx
    . right
      refine ⟨ha, ?_, ht⟩
      rw [hcount, if_neg hout]
  . have : s.sys.numbers = Finset.univ.filter fun n => s.sys.syscallArray n = 1 := by
      ext n
      simp [h.mem_numbers_iff]
    rw [h.len, this]
  . intro env n
    rcases registerSystemCall_cases env n s with ⟨hk, hr, _⟩ | ⟨_, _, ha, hr, _⟩
      | ⟨h0, h1, ha, hr, _⟩
    . rw [hr]
      rcases hk with hk | hk <;> simp [hk, ENOMEM]
    . rw [hr]
      simp [ha, EEXIST]
    . simp [hr, h0, h1, ha]
  . intro n
    rcases deregisterSystemCall_cases n s with ⟨ha, hr, _⟩ | ⟨_, hl, hr, _⟩ | ⟨ha, hr, _⟩
    . simp [hr, ha, ENOENT]
    . rw [h.lookup_eq_none, h.not_mem_numbers_iff] at hl
      simp [hr, hl, EFAULT]
    . rw [ne_eq, ← h.not_mem_numbers_iff, not_not, h.mem_numbers_iff] at ha
      simp [hr, ha]
  . intro n
    rcases deregisterSystemCall_cases n s with ⟨_, hr, _⟩ | ⟨ha, hl, _⟩ | ⟨_, hr, _⟩
    . simp [hr, ENOENT, EFAULT]
    . rw [h.lookup_eq_none, h.not_mem_numbers_iff] at hl
      exact absurd hl ha
    . simp [hr, EFAULT]

end Throttling

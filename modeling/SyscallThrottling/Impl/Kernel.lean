import Mathlib.Algebra.Group.Int.Defs
import Mathlib.Algebra.Group.Nat.Defs
import SyscallThrottling.Lib.CString
import SyscallThrottling.Lib.HashTable

/-!
This module contains what the module takes from the kernel it is loaded into: configuration
constants, error numbers, code pointers, string buffers of `TASK_COMM_LEN` bytes and the allocator.
-/

namespace Throttling

/--
A kernel build. `jhash` is applied to the bytes of its key (the initial value is always 0), and
`hashMin` is the bucket a 32-bit key goes to in a table of `1 << 8` buckets.
-/
structure Platform where
  nrSyscalls : Nat
  nrSyscalls_pos : 0 < nrSyscalls
  nrSyscalls_lt : nrSyscalls < 2 ^ 31
  HZ : Nat
  HZ_pos : 0 < HZ
  hashMin : UInt32 → Fin 256
  jhash : List UInt8 → UInt32
  jiffiesToMsecs : UInt64 → UInt32

/--
A build with 462 system calls and 250 jiffies a second, on which the fixed inputs of this
development run. A table with `1 << 8` buckets keeps the upper 8 bits of a multiplicative hash.
-/
def Platform.sample : Platform where
  nrSyscalls := 462
  nrSyscalls_pos := by decide
  nrSyscalls_lt := by decide
  HZ := 250
  HZ_pos := by decide
  hashMin key := Fin.ofNat 256 ((key * 0x61C88647) >>> 24).toNat
  jhash key := key.foldl (fun h c => 31 * h + c.toUInt32) 0
  jiffiesToMsecs j := (4 * j).toUInt32

def EPERM : Int := 1
def ENOENT : Int := 2
def EINTR : Int := 4
def ENOMEM : Int := 12
def EFAULT : Int := 14
def EEXIST : Int := 17
def EINVAL : Int := 22
def ENOSYS : Int := 38
def EALREADY : Int := 114
def ERESTARTSYS : Int := 512

inductive Handler where
  | throttlingWrapper
  | kernel (addr : UInt64)
  deriving DecidableEq

/--
The registers of a caller. The dispatcher indexes the table with `orig_ax`, so that it is in range
when a handler runs.
-/
structure PtRegs (K : Platform) where
  origAx : Fin K.nrSyscalls
  args : List UInt64
  deriving DecidableEq

def toInt (x : Int) : Int :=
  x.bmod (2 ^ 32)

def toSize (x : Int) : Nat :=
  (x % 2 ^ 64).toNat

theorem toInt_eq_self {x : Int} (h1 : -2 ^ 31 ≤ x) (h2 : x < 2 ^ 31) : toInt x = x := by
  unfold toInt
  apply Int.bmod_eq_of_le <;> omega

def arrayIndexNospec (K : Platform) (i : Int) : Fin K.nrSyscalls :=
  if h : 0 ≤ i ∧ i < K.nrSyscalls then
    ⟨i.toNat, by omega⟩
  else
    ⟨0, K.nrSyscalls_pos⟩

@[simp]
theorem arrayIndexNospec_coe (K : Platform) (n : Fin K.nrSyscalls)
    : arrayIndexNospec K (n : Nat) = n := by
  have h : (0 : Int) ≤ (n : Nat) ∧ ((n : Nat) : Int) < K.nrSyscalls := by omega
  simp [arrayIndexNospec, h]

abbrev Comm := Vector UInt8 16

namespace Comm

def ofBytes (l : List UInt8) : Comm :=
  Vector.ofFn fun i => l.getD i 0

def str (c : Comm) : List UInt8 :=
  CString.bytes c.toList

/-- `strncpy(dst, src, 15)` followed by `dst[15] = 0`. -/
def strncpy (src : Comm) : Comm :=
  ofBytes (CString.truncate 15 src.toList)

def strscpy (dst src : Comm) : Comm :=
  Vector.ofFn fun i =>
    if (i : Nat) < (CString.truncate 15 src.toList).length then
      (CString.truncate 15 src.toList).getD i 0
    else if (i : Nat) = (CString.truncate 15 src.toList).length then
      0
    else
      dst.get i

def terminate (c : Comm) : Comm :=
  c.set 15 0

end Comm

def strncpyFromUser (src : List UInt8) : Comm :=
  Comm.ofBytes (CString.truncate 15 src)

abbrev Ptr := Nat

/-- What `kmalloc` returns for a request of no bytes. It is no object. -/
def ZERO_SIZE_PTR : Ptr := 0

structure Heap where
  brk : Ptr
  live : List Ptr
  deriving DecidableEq

/--
`ok` is the answer of the allocator to a request of that size. No request of half the address space
is ever granted.
-/
def Heap.kmalloc (h : Heap) (ok : Bool) (size : Nat) : Option Ptr × Heap :=
  if size = 0 then
    (some ZERO_SIZE_PTR, h)
  else if ok = true ∧ size < 2 ^ 63 then
    (some h.brk, { brk := h.brk + 1, live := h.brk :: h.live })
  else
    (none, h)

theorem Heap.kmalloc_eq (h : Heap) (ok : Bool) {size : Nat} (h0 : size ≠ 0) (h1 : size < 2 ^ 63)
    : h.kmalloc ok size
        = if ok then (some h.brk, { brk := h.brk + 1, live := h.brk :: h.live }) else (none, h) := by
  unfold kmalloc
  rw [if_neg h0]
  cases ok with
  | false => simp
  | true => rw [if_pos ⟨rfl, h1⟩, if_pos rfl]

def Heap.kfree (h : Heap) (p : Ptr) : Heap :=
  { h with live := h.live.erase p }

end Throttling

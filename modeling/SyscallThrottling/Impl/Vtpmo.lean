import SyscallThrottling.Impl.Kernel
import SyscallThrottling.Lib.TableWalk

/-!
This module contains `my_vtpmo.c`, which looks up a virtual address in the page tables, and the
translation of addresses by the processor that the same tables give rise to.
-/

namespace Throttling

open TableWalk

/--
What the search of the kernel runs on: the root of the page tables, and the 64-bit words of the
physical memory. `__va` and `phys_to_virt` are the direct map, through which all of it can be read.
-/
structure Space where
  cr3 : UInt64
  phys : UInt64 → UInt64

def ADDRESS_MASK : UInt64 := 0xfffffffffffff000
def PT_ADDRESS_MASK : UInt64 := 0x7ffffffffffff000
def VALID : UInt64 := 0x1
def LH_MAPPING : UInt64 := 0x80
def NO_MAP : Int := -1

def PML4 (addr : UInt64) : UInt64 := (addr >>> 39) &&& 0x1ff
def PDP (addr : UInt64) : UInt64 := (addr >>> 30) &&& 0x1ff
def PDE (addr : UInt64) : UInt64 := (addr >>> 21) &&& 0x1ff
def PTE (addr : UInt64) : UInt64 := (addr >>> 12) &&& 0x1ff

namespace Space

variable (sp : Space)

def entry (table index : UInt64) : UInt64 :=
  sp.phys (table + 8 * index)

def frameNumber (frameAddr : UInt64) : Int :=
  -- an `int`: the upper bits of the number are cut off
  toInt (frameAddr >>> 12).toNat

def sysVtpmo (vaddr : UInt64) : Int :=
  let pml4 := sp.cr3 &&& ADDRESS_MASK
  let pgd := sp.entry pml4 (PML4 vaddr)
  if pgd &&& VALID = 0 then
    NO_MAP
  else
    let pdp := pgd &&& PT_ADDRESS_MASK
    let pud := sp.entry pdp (PDP vaddr)
    if pud &&& VALID = 0 then
      NO_MAP
    else
      let pde := pud &&& PT_ADDRESS_MASK
      let pmd := sp.entry pde (PDE vaddr)
      if pmd &&& VALID = 0 then
        NO_MAP
      else if pmd &&& LH_MAPPING ≠ 0 then
        frameNumber (pmd &&& PT_ADDRESS_MASK)
      else
        let pte := pmd &&& PT_ADDRESS_MASK
        let e := sp.entry pte (PTE vaddr)
        if e &&& VALID = 0 then
          NO_MAP
        else
          frameNumber (e &&& PT_ADDRESS_MASK)

/-- Bits 12 to 51 of an entry: a processor takes the address of a table from no others. -/
def HW_ADDRESS_MASK : UInt64 := 0x000ffffffffff000

def index (l : Nat) (vaddr : UInt64) : UInt64 :=
  match l with
  | 0 => PTE vaddr
  | 1 => PDE vaddr
  | 2 => PDP vaddr
  | _ => PML4 vaddr

def leafSize (l : Nat) : Nat := 2 ^ (12 + 9 * l)

/--
What an entry of a table of level `l` says to the processor. A leaf is at the lowest level, or above
it, in the two levels that have large pages, where the entry says so.
-/
def cpuSlot (l : Nat) (e : UInt64) : Slot UInt64 UInt64 :=
  if e &&& VALID = 0 then
    .absent
  else if l = 0 ∨ (l ≤ 2 ∧ e &&& LH_MAPPING ≠ 0) then
    .leaf e
  else
    .table (e &&& HW_ADDRESS_MASK)

def cpuTables : Tables UInt64 UInt64 UInt64 where
  slot l table vaddr := cpuSlot l (sp.entry table (index l vaddr))

def leaf (vaddr : UInt64) : Option (Nat × UInt64) :=
  walk sp.cpuTables vaddr 4 (sp.cr3 &&& HW_ADDRESS_MASK)

/--
The bits of the address above the 48 that the tables translate are copies of the last of these.
-/
def Canonical (vaddr : UInt64) : Prop :=
  vaddr < 0x0000800000000000 ∨ 0xffff800000000000 ≤ vaddr

instance (vaddr : UInt64) : Decidable (Canonical vaddr) :=
  inferInstanceAs (Decidable (_ ∨ _))

/--
The physical address of a virtual one. An access to an address without one is a fault: the processor
refuses an address that is not canonical before it looks at any table.
-/
def translate (vaddr : UInt64) : Option Nat :=
  if Canonical vaddr then
    (sp.leaf vaddr).map fun (l, e) =>
      (e &&& HW_ADDRESS_MASK).toNat / leafSize l * leafSize l + vaddr.toNat % leafSize l
  else
    none

def word (addr : UInt64) (i : Nat) : Option UInt64 :=
  (sp.translate (addr + 8 * UInt64.ofNat i)).map fun p => sp.phys (UInt64.ofNat p)

/--
A page of 2 MiB at `0xffffffff00000000`, and nothing else. Its first words are a syscall table whose
free entries hold one address, all others another one.
-/
def sample : Space where
  cr3 := 0x1000
  phys p :=
    if p = 0x1ff8 then
      0x2003
    else if p = 0x2fe0 then
      0x3003
    else if p = 0x3000 then
      0x200083
    else if p < 0x200000 then
      0
    else if (p.toNat - 0x200000) / 8 ∈ [134, 174, 182, 183, 214, 215, 236] then
      0xffffffff81000000
    else
      0xffffffff82000000

end Space

end Throttling

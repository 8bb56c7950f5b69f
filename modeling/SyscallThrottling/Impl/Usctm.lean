import SyscallThrottling.Impl.Vtpmo

/-!
This module contains the search for the syscall table of `my_usctm.c`. A load from an address that
is not mapped is a page fault, which a search does not survive: its result is `none`.
-/

namespace Throttling

def START : UInt64 := 0xffffffff00000000
def MAX_ADDR : UInt64 := 0xfffffffffff00000
def PAGE_SIZE : UInt64 := 4096

def FIRST_NI_SYSCALL : Nat := 134
def SECOND_NI_SYSCALL : Nat := 174
def THIRD_NI_SYSCALL : Nat := 182
def FOURTH_NI_SYSCALL : Nat := 183
def FIFTH_NI_SYSCALL : Nat := 214
def SIXTH_NI_SYSCALL : Nat := 215
def SEVENTH_NI_SYSCALL : Nat := 236

structure Usctm where
  hackedNiSyscall : UInt64
  hackedSyscallTbl : UInt64
  sysCallTableAddress : UInt64
  sysNiSyscallAddress : UInt64
  deriving DecidableEq

def Usctm.initial : Usctm where
  hackedNiSyscall := 0
  hackedSyscallTbl := 0
  sysCallTableAddress := 0
  sysNiSyscallAddress := 0

def Usctm.record (addr ni : UInt64) : Usctm where
  hackedNiSyscall := ni
  sysNiSyscallAddress := ni
  hackedSyscallTbl := addr
  sysCallTableAddress := addr

namespace Space

variable (sp : Space)

/-- The iterations of the loop of `good_area` that are left, from the entry `i` on. -/
def goodAreaFrom (addr : UInt64) : Nat → Nat → Option Bool
  | 0, _ => some true
  | left + 1, i => do
    if (← sp.word addr i) = (← sp.word addr FIRST_NI_SYSCALL) then
      return false
    else
      goodAreaFrom addr left (i + 1)

def goodArea (addr : UInt64) : Option Bool :=
  sp.goodAreaFrom addr (FIRST_NI_SYSCALL - 1) 1

def sameEntries (addr : UInt64) : List Nat → Option Bool
  | [] => some true
  | i :: is => do
    if (← sp.word addr FIRST_NI_SYSCALL) = (← sp.word addr i) then
      sameEntries addr is
    else
      return false

def otherNiSyscalls : List Nat :=
  [SECOND_NI_SYSCALL, THIRD_NI_SYSCALL, FOURTH_NI_SYSCALL, FIFTH_NI_SYSCALL, SIXTH_NI_SYSCALL,
    SEVENTH_NI_SYSCALL]

/-- The condition of the pattern matching. An operand is evaluated if those before it are true. -/
def isTable (addr : UInt64) : Option Bool := do
  let ni ← sp.word addr FIRST_NI_SYSCALL
  if ni &&& 0x3 = 0 ∧ ni ≠ 0x0 ∧ ni > 0xffffffff00000000 then
    if ← sp.sameEntries addr otherNiSyscalls then
      sp.goodArea addr
    else
      return false
  else
    return false

/-- The iterations of the loop of `validate_page` that are left, from the offset `i` on. -/
def validatePageFrom (page : UInt64) (g : Usctm) : Nat → UInt64 → Option (Bool × Usctm)
  | 0, _ => some (false, g)
  | left + 1, i => do
    let newPage := page + i + UInt64.ofNat SEVENTH_NI_SYSCALL * 8
    if page + PAGE_SIZE = newPage &&& ADDRESS_MASK ∧ sp.sysVtpmo newPage = NO_MAP then
      return (false, g)
    else
      let addr := page + i
      if ← sp.isTable addr then
        return (true, .record addr (← sp.word addr FIRST_NI_SYSCALL))
      else
        validatePageFrom page g left (i + 8)

def validatePage (addr : UInt64) (g : Usctm) : Option (Bool × Usctm) :=
  sp.validatePageFrom addr g 512 0

def syscallTableFinderFrom (g : Usctm) : Nat → UInt64 → Option Usctm
  | 0, _ => some g
  | left + 1, k => do
    if sp.sysVtpmo k ≠ NO_MAP then
      match ← sp.validatePage k g with
      | (true, g) => return g
      | (false, g) => syscallTableFinderFrom g left (k + 4096)
    else
      syscallTableFinderFrom g left (k + 4096)

def syscallTableFinder (g : Usctm) : Option Usctm :=
  sp.syscallTableFinderFrom g ((MAX_ADDR - START) / 4096).toNat START

end Space

end Throttling

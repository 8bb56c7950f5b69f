import SyscallThrottling.Impl.Dev

/-!
This module contains the load and the unload of the module: the patch of the dispatcher of
`my_usctm.c` and the functions of `throttling_mod.c`.
-/

namespace Throttling

structure SyscallTable (K : Platform) where
  entry : Fin K.nrSyscalls → Handler
  original : ∀ n, entry n ≠ .throttlingWrapper

def SyscallTable.sample : SyscallTable Platform.sample where
  entry n := .kernel (0x1000 + UInt64.ofNat n)
  original _ := nofun

def State.loaded (K : Platform) (T : SyscallTable K) (stats : Ptr → SyscallStats) (now : Nat)
    : State K :=
  let s := State.initial K T.entry stats now
  { s with mon := (s.mon.coreSetup K).2 }

def instLen : Nat := 5

abbrev Inst := Vector UInt8 5

structure Module (K : Platform) where
  text : Nat → UInt8
  state : State K
  dev : Device
  originalInst : Inst
  jumpInst : Inst
  x64SysCallAddr : Nat

namespace Module

variable {K : Platform}

def initial (text : Nat → UInt8) (T : SyscallTable K) (stats : Ptr → SyscallStats) (now : Nat)
    : Module K where
  text := text
  state := State.initial K T.entry stats now
  dev := .none
  originalInst := Vector.replicate 5 0
  jumpInst := Vector.replicate 5 0
  x64SysCallAddr := 0

def patchText (text : Nat → UInt8) (dst : Nat) (inst : Inst) : Nat → UInt8 :=
  fun a => if dst ≤ a ∧ a < dst + instLen then inst.toList.getD (a - dst) 0 else text a

def readText (text : Nat → UInt8) (src : Nat) : Inst :=
  Vector.ofFn fun i => text (src + i)

/-- `0xE9` and the distance to `call` from the end of the jump, as a little endian `int`. -/
def jumpTo (call x64SysCallAddr : Nat) : Inst :=
  let offset := UInt32.ofInt ((call : Int) - x64SysCallAddr - instLen)
  #v[0xE9, offset.toUInt8, (offset >>> 8).toUInt8, (offset >>> 16).toUInt8, (offset >>> 24).toUInt8]

def initSystemCallTable (env : LoadEnv) (call : Nat) (m : Module K) : Int × Module K :=
  if env.tableFound = false then
    (-1, m)
  else
    match env.kprobe with
    | none => (-1, m)
    | some addr =>
      let m := { m with x64SysCallAddr := addr, jumpInst := jumpTo call addr }
      let m := { m with originalInst := readText m.text m.x64SysCallAddr }
      (0, { m with text := patchText m.text m.x64SysCallAddr m.jumpInst })

def cleanupSystemCallTable (m : Module K) : Module K :=
  { m with text := patchText m.text m.x64SysCallAddr m.originalInst }

def initModule (env : LoadEnv) (call : Nat) (m : Module K) : Int × Module K :=
  match m.initSystemCallTable env call with
  | (ret, m) =>
    if ret ≠ 0 then
      (-1, m)
    else
      match m.dev.init env with
      | (ret, dev) =>
        let m := { m with dev }
        if ret ≠ 0 then
          (-1, m)
        else
          match m.state.mon.coreSetup K with
          | (ret, mon) =>
            let m := { m with state := { m.state with mon } }
            if ret ≠ 0 then
              (-1, m)
            else
              (0, m)

def cleanupModule (m : Module K) : Module K :=
  let m := m.cleanupSystemCallTable
  let m := { m with dev := m.dev.cleanup }
  let (_, state) := cleanupRcu m.state
  { m with state }

end Module

end Throttling

import SyscallThrottling.Impl.Steps

/-!
This module contains `throttling_wrapper` as a sequence of atomic steps, from the read of the table
entry in the dispatcher to the return to the caller.
-/

namespace Throttling

inductive WrapperPc where
  | dispatch
  | direct (h : Handler)
  | entry
  | checkUid
  | checkProg
  | lookup
  | takeToken
  | recheck
  | incBlocked
  | startWait
  | enqueue
  | testMonitor
  | testTokens
  | sleep
  | decBlocked (waitRet : Int)
  | addDelay
  | statLookup
  | statCompare (stats : Ptr)
  | statUpdate (stats : Ptr)
  | callOriginal
  | done (ret : Int)
  deriving DecidableEq

structure Wrapper (K : Platform) where
  regs : PtRegs K
  euid : UInt32
  comm : Comm
  pc : WrapperPc
  needMon : Bool
  toCall : Option Handler
  startTime : UInt64
  delay : UInt64
  deriving DecidableEq

inductive Choice (T : Type) where
  | go
  | signal
  | result (ret : Int)
  | start (task : T)

namespace Wrapper

variable {K : Platform}

def initial (regs : PtRegs K) (euid : UInt32) (comm : Comm) : Wrapper K where
  regs := regs
  euid := euid
  comm := comm
  pc := .dispatch
  needMon := false
  toCall := none
  startTime := 0
  delay := 0

def goto (w : Wrapper K) (pc : WrapperPc) : Wrapper K :=
  { w with pc }

def tail (w : Wrapper K) : Wrapper K :=
  -- the label `original_system_call`
  if w.delay > 0 then w.goto .statLookup else w.goto .callOriginal

def enqueue (m : Monitor) (i : Nat) : Monitor :=
  { m with throttWq := i :: m.throttWq }

def dequeue (m : Monitor) (i : Nat) : Monitor :=
  { m with throttWq := m.throttWq.filter (· ≠ i) }

def addBlocked (m : Monitor) (d : Int) : Monitor :=
  { m with blockedThread := m.blockedThread + d }

def updateStats (s : Shared K) (p : Ptr) (w : Wrapper K) : Shared K :=
  let old := s.st.sys.stats p
  let new :=
    { old with
      peakDelay := w.delay
      peakUid := w.euid
      peakProgName := Comm.strscpy old.peakProgName w.comm }
  s.setSys { s.st.sys with stats := Function.update s.st.sys.stats p new }

/--
One step of invocation `i`. `wait_event_interruptible` puts the caller on the queue before it
evaluates the condition, and sleeps until it is taken off the queue or a signal arrives. A read-side
critical section is one step, unless it goes on with what it has looked up.
-/
def step {T : Type} (i : Nat) (ch : Choice T) (s : Shared K) (w : Wrapper K)
    : Option (Shared K × Wrapper K × List (Event K)) :=
  match w.pc, ch with
  | .dispatch, .go =>
    match s.st.sys.hackedSyscallTbl w.regs.origAx with
    | .throttlingWrapper => some (s, w.goto .entry, [])
    | .kernel addr => some (s, w.goto (.direct (.kernel addr)), [])
  | .direct h, .result ret =>
    some (s, w.goto (.done ret), [.returned i ret, .executed i h w.regs ret])
  | .entry, .go =>
    if s.st.mon.isMonitorActive = 0 then
      some (s, w.tail, [.sawMonitor i false])
    else
      some (s, w.goto .checkUid, [.sawMonitor i true])
  | .checkUid, .go =>
    if Throttling.checkUid K w.euid s.st.uids ≠ 0 then
      some (s, { w with needMon := true }.goto .lookup, [.checked i true])
    else
      some (s, w.goto .checkProg, [])
  | .checkProg, .go =>
    let needMon := Throttling.checkProgname K w.comm s.st.progs ≠ 0
    some (s, { w with needMon }.goto .lookup, [.checked i needMon])
  | .lookup, .go =>
    let toCall := (s.st.sys.lookup w.regs.origAx).map HackedSyscall.originalSyscall
    if w.needMon = false then
      some (s, { w with toCall }.tail, [])
    else
      some (s, { w with toCall }.goto .takeToken, [])
  | .takeToken, .go =>
    if s.st.mon.currSyscalls > 0 then
      some (s.setMon { s.st.mon with currSyscalls := s.st.mon.currSyscalls - 1 }, w.tail,
        [.token i s.st.mon.jiffies])
    else
      some (s, w.goto .recheck, [])
  | .recheck, .go =>
    if s.st.mon.isMonitorActive = 0 then
      some (s, w.tail, [.sawOff i])
    else
      some (s, w.goto .incBlocked, [])
  | .incBlocked, .go => some (s.setMon (addBlocked s.st.mon 1), w.goto .startWait, [])
  | .startWait, .go => some (s, { w with startTime := s.st.mon.jiffiesUlong }.goto .enqueue, [])
  | .enqueue, .go => some (s.setMon (enqueue s.st.mon i), w.goto .testMonitor, [])
  | .testMonitor, .go =>
    if s.st.mon.isMonitorActive = 0 then
      some (s.setMon (dequeue s.st.mon i), w.goto (.decBlocked 0), [])
    else
      some (s, w.goto .testTokens, [])
  | .testTokens, .go =>
    if s.st.mon.currSyscalls > 0 then
      some (s.setMon (dequeue s.st.mon i), w.goto (.decBlocked 0), [])
    else
      some (s, w.goto .sleep, [])
  | .sleep, .go =>
    -- woken: the condition is evaluated again, back on the queue
    if i ∈ s.st.mon.throttWq then
      none
    else
      some (s, w.goto .enqueue, [])
  | .sleep, .signal => some (s.setMon (dequeue s.st.mon i), w.goto (.decBlocked (-ERESTARTSYS)), [])
  | .decBlocked waitRet, .go =>
    if waitRet ≠ 0 then
      some (s.setMon (addBlocked s.st.mon (-1)), w.goto (.done (-EINTR)),
        [.returned i (-EINTR), .interrupted i])
    else
      some (s.setMon (addBlocked s.st.mon (-1)), w.goto .addDelay, [])
  | .addDelay, .go =>
    some (s, { w with delay := w.delay + (s.st.mon.jiffiesUlong - w.startTime) }.goto .takeToken,
      [])
  | .statLookup, .go =>
    match s.st.sys.lookup w.regs.origAx with
    | some entry => some (s.rcuReadLock i, w.goto (.statCompare entry.stats), [])
    | none => some (s, w.goto .callOriginal, [])
  | .statCompare p, .go =>
    if (s.st.sys.stats p).peakDelay < w.delay then
      some (s, w.goto (.statUpdate p), [])
    else
      some (s.rcuReadUnlock i, w.goto .callOriginal, [])
  | .statUpdate p, .go => some ((updateStats s p w).rcuReadUnlock i, w.goto .callOriginal, [])
  | .callOriginal, ch =>
    match w.toCall, ch with
    | some h, .result ret =>
      some (s, w.goto (.done ret), [.returned i ret, .executed i h w.regs ret])
    | none, .go => some (s, w.goto (.done (-ENOSYS)), [.returned i (-ENOSYS)])
    | _, _ => none
  | _, _ => none

end Wrapper

end Throttling

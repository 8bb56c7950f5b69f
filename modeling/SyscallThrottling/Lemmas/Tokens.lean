import SyscallThrottling.Lemmas.Frame
import SyscallThrottling.Lib.EpochLimiter

/-!
This module contains the accounts of the tokens: what is left, what was taken since the last refill
and what the refills stored, in any interleaving of the steps of the module.
-/

namespace Throttling

open Interleaving EpochLimiter

variable {K : Platform}

def Event.entry : Event K → Option Entry
  | .token _ t => some (.take t)
  | .refill v t => some (.refill v t)
  | _ => none

def tokenLog (trace : List (Event K)) : Log :=
  trace.filterMap Event.entry

def maxOfRun : List (Event K) → Option Int
  | [] => none
  | .maxRead max :: _ => some max
  | .refill _ _ :: _ => none
  | _ :: l => maxOfRun l

/-- Every refill stores the limit that its run of the handler has read. -/
def Sourced : List (Event K) → Prop
  | [] => True
  | .refill v _ :: l => maxOfRun l = some v ∧ Sourced l
  | _ :: l => Sourced l

structure Event.Quiet (x : Event K) : Prop where
  entry : x.entry = none
  maxRead : ∀ max, x ≠ .maxRead max

section Quiet

variable {ev trace : List (Event K)}

theorem tokenLog_append (h : ∀ x ∈ ev, x.Quiet) : tokenLog (ev ++ trace) = tokenLog trace := by
  have hev : ev.filterMap Event.entry = [] := by
    rw [List.filterMap_eq_nil_iff]
    exact fun x hx => (h x hx).entry
  rw [tokenLog, List.filterMap_append, hev, List.nil_append, tokenLog]

theorem maxOfRun_append (h : ∀ x ∈ ev, x.Quiet) : maxOfRun (ev ++ trace) = maxOfRun trace := by
  induction ev with
  | nil => rfl
  | cons x ev ih =>
    have hx := h x List.mem_cons_self
    rw [List.cons_append, ← ih fun y hy => h y (List.mem_cons_of_mem _ hy)]
    cases x with
    | maxRead max => exact absurd rfl (hx.maxRead max)
    | refill v t => exact absurd hx.entry (by simp [Event.entry])
    | _ => rfl

theorem sourced_append (h : ∀ x ∈ ev, x.Quiet) : Sourced (ev ++ trace) ↔ Sourced trace := by
  induction ev with
  | nil => rfl
  | cons x ev ih =>
    have hx := h x List.mem_cons_self
    rw [List.cons_append, ← ih fun y hy => h y (List.mem_cons_of_mem _ hy)]
    cases x with
    | refill v t => exact absurd hx.entry (by simp [Event.entry])
    | _ => rfl

end Quiet

namespace HandlerPc

def refilled : HandlerPc → Bool
  | .wake => true
  | .modTimer => true
  | _ => false

def pendingMax : HandlerPc → Option Int
  | .readBlocked max => some max
  | .addSum max _ => some max
  | .readPeak max _ => some max
  | .setPeak max _ => some max
  | .readExponential max _ => some max
  | .setExponential max _ => some max
  | .setCurr max => some max
  | _ => none

end HandlerPc

def Spaced (K : Platform) (trace : List (Event K)) (t : Nat) : Prop :=
  ∀ x ∈ tokenLog trace, x.After K.HZ t

theorem Spaced.mono {trace : List (Event K)} {t t' : Nat} (h : Spaced K trace t) (hle : t ≤ t')
    : Spaced K trace t' := by
  intro x hx
  have := h x hx
  cases x with
  | take _ => trivial
  | refill v u =>
    dsimp only [Entry.After] at this ⊢
    omega

/--
The counter is what is left of the last refill. A timer is due, and a handler refills, a whole epoch
after the last refill.
-/
structure Accounts (s : Shared K) (trace : List (Event K)) : Prop where
  balance : s.st.mon.currSyscalls = (tokenLog trace).value 3 - (tokenLog trace).spent
  valid : (tokenLog trace).Valid 3 K.HZ
  past : ∀ x ∈ tokenLog trace, x.time ≤ s.st.mon.jiffies
  sourced : Sourced trace
  max_pos : 0 < s.st.mon.maxSyscallsPerSec
  due : (∀ pc, s.handler = some pc → pc.refilled = false) →
    ∀ e, s.st.mon.epochTimer = some e → Spaced K trace e
  handler : ∀ pc, s.handler = some pc → pc.refilled = false → Spaced K trace s.st.mon.jiffies
  pending : ∀ pc max, s.handler = some pc → pc.pendingMax = some max →
    0 < max ∧ maxOfRun trace = some max

namespace Accounts

variable {s s' : Shared K} {ev trace : List (Event K)}

theorem loaded (T : SyscallTable K) (stats : Ptr → SyscallStats) (now : Nat)
    : Accounts (loaded K T stats now).shared (loaded K T stats now).trace where
  balance := rfl
  valid := .nil
  past := by simp [Throttling.loaded, tokenLog]
  sourced := trivial
  max_pos := by simp [Throttling.loaded, State.loaded, State.initial, Monitor.coreSetup,
    Monitor.timerSetup, Monitor.modTimer]
  due := by simp [Throttling.loaded, Spaced, tokenLog]
  handler := by simp [Throttling.loaded]
  pending := by simp [Throttling.loaded]

theorem nonneg (h : Accounts s trace) : 0 ≤ s.st.mon.currSyscalls := by
  have := h.valid.spent_le (by decide)
  have := h.balance
  omega

theorem spaced_after (h : Accounts s trace) : Spaced K trace (s.st.mon.jiffies + K.HZ) := by
  intro x hx
  have := h.past x hx
  cases x with
  | take t => trivial
  | refill v t =>
    dsimp only [Entry.time, Entry.After] at this ⊢
    omega

theorem quiet (h : Accounts s trace) (hev : ∀ x ∈ ev, x.Quiet)
    (hcurr : s'.st.mon.currSyscalls = s.st.mon.currSyscalls)
    (hmax : 0 < s'.st.mon.maxSyscallsPerSec) (hjiffies : s.st.mon.jiffies ≤ s'.st.mon.jiffies)
    (hdue : (∀ pc, s'.handler = some pc → pc.refilled = false) →
      ∀ e, s'.st.mon.epochTimer = some e → Spaced K trace e)
    (hhandler : ∀ pc, s'.handler = some pc → pc.refilled = false →
      Spaced K trace s'.st.mon.jiffies)
    (hpending : ∀ pc max, s'.handler = some pc → pc.pendingMax = some max →
      0 < max ∧ maxOfRun trace = some max) : Accounts s' (ev ++ trace) := by
  have hspaced : ∀ t, Spaced K (ev ++ trace) t ↔ Spaced K trace t := by
    intro t
    rw [Spaced, tokenLog_append hev, Spaced]
  constructor
  . rw [tokenLog_append hev, hcurr]
    exact h.balance
  . rw [tokenLog_append hev]
    exact h.valid
  . rw [tokenLog_append hev]
    exact fun x hx => (h.past x hx).trans hjiffies
  . rw [sourced_append hev]
    exact h.sourced
  . exact hmax
  . intro hpc e he
    rw [hspaced]
    exact hdue hpc e he
  . intro pc hpc hr
    rw [hspaced]
    exact hhandler pc hpc hr
  . rw [maxOfRun_append hev]
    exact hpending

theorem frame (h : Accounts s trace) (hev : ∀ x ∈ ev, x.Quiet)
    (hcurr : s'.st.mon.currSyscalls = s.st.mon.currSyscalls)
    (hmax : 0 < s'.st.mon.maxSyscallsPerSec) (hjiffies : s.st.mon.jiffies ≤ s'.st.mon.jiffies)
    (hhandler : s'.handler = s.handler)
    (htimer : s'.st.mon.epochTimer = s.st.mon.epochTimer ∨ s'.st.mon.epochTimer = none
      ∨ s'.st.mon.epochTimer = some (s.st.mon.jiffies + K.HZ)) : Accounts s' (ev ++ trace) := by
  apply h.quiet hev hcurr hmax hjiffies
  . intro hpc e he
    rw [hhandler] at hpc
    rcases htimer with ht | ht | ht
    . exact h.due hpc e (ht ▸ he)
    . simp [ht] at he
    . rw [ht, Option.some.injEq] at he
      subst he
      exact h.spaced_after
  . intro pc hpc hr
    rw [hhandler] at hpc
    exact (h.handler pc hpc hr).mono hjiffies
  . rw [hhandler]
    exact h.pending

theorem silent (h : Accounts s trace)
    (hcurr : s'.st.mon.currSyscalls = s.st.mon.currSyscalls)
    (hmax : 0 < s'.st.mon.maxSyscallsPerSec) (hjiffies : s.st.mon.jiffies ≤ s'.st.mon.jiffies)
    (hhandler : s'.handler = s.handler)
    (htimer : s'.st.mon.epochTimer = s.st.mon.epochTimer ∨ s'.st.mon.epochTimer = none
      ∨ s'.st.mon.epochTimer = some (s.st.mon.jiffies + K.HZ)) : Accounts s' trace := by
  have hs : Accounts s' ([] ++ trace) := h.frame (by simp) hcurr hmax hjiffies hhandler htimer
  exact hs

theorem token (h : Accounts s trace) (i : Nat) (hpos : 0 < s.st.mon.currSyscalls)
    (hcurr : s'.st.mon.currSyscalls = s.st.mon.currSyscalls - 1)
    (hmon : s'.st.mon.maxSyscallsPerSec = s.st.mon.maxSyscallsPerSec
      ∧ s'.st.mon.jiffies = s.st.mon.jiffies ∧ s'.st.mon.epochTimer = s.st.mon.epochTimer)
    (hhandler : s'.handler = s.handler)
    : Accounts s' (.token i s.st.mon.jiffies :: trace) := by
  obtain ⟨hmax, hjiffies, htimer⟩ := hmon
  have hlog : tokenLog (.token i s.st.mon.jiffies :: trace)
      = .take s.st.mon.jiffies :: tokenLog trace := rfl
  have hspaced : ∀ t, Spaced K trace t → Spaced K (.token i s.st.mon.jiffies :: trace) t := by
    intro t ht x hx
    rw [hlog, List.mem_cons] at hx
    rcases hx with rfl | hx
    . trivial
    . exact ht x hx
  have hbalance := h.balance
  constructor
  . rw [hlog, Log.value, Log.spent]
    omega
  . rw [hlog]
    exact .take _ h.valid h.past (by omega)
  . intro x hx
    rw [hlog, List.mem_cons] at hx
    rcases hx with rfl | hx
    . exact hjiffies.ge
    . exact (h.past x hx).trans hjiffies.ge
  . exact h.sourced
  . rw [hmax]
    exact h.max_pos
  . rw [hhandler, htimer]
    exact fun hpc e he => hspaced e (h.due hpc e he)
  . rw [hhandler, hjiffies]
    exact fun pc hpc hr => hspaced _ (h.handler pc hpc hr)
  . rw [hhandler]
    exact h.pending

theorem expire (h : Accounts s trace) {e : Nat} (htimer : s.st.mon.epochTimer = some e)
    (hhandler : s.handler = none) (hle : e ≤ s.st.mon.jiffies)
    : Accounts ((s.setMon { s.st.mon with epochTimer := none }).setHandler (some .check)) trace where
  balance := h.balance
  valid := h.valid
  past := h.past
  sourced := h.sourced
  max_pos := h.max_pos
  due := by simp [Shared.setMon, Shared.setHandler]
  -- the handler starts when the timer is due, an epoch after the last refill
  handler := by
    intro pc _ _
    exact (h.due (by simp [hhandler]) e htimer).mono hle
  pending := by
    intro pc max hpc hp
    cases hpc
    cases hp

theorem handler_frame (h : Accounts s trace) {pc : HandlerPc} {pc' : Option HandlerPc}
    (hpc : s.handler = some pc) (hev : ∀ x ∈ ev, x.Quiet) {m : Monitor}
    (hm : m.currSyscalls = s.st.mon.currSyscalls ∧ m.maxSyscallsPerSec = s.st.mon.maxSyscallsPerSec
      ∧ m.jiffies = s.st.mon.jiffies ∧ m.epochTimer = s.st.mon.epochTimer)
    (hpc' : ∀ q, pc' = some q → q.refilled = pc.refilled
      ∧ ∀ max, q.pendingMax = some max → pc.pendingMax = some max)
    (hnone : pc' = none → pc.refilled = false)
    : Accounts ((s.setMon m).setHandler pc') (ev ++ trace) := by
  obtain ⟨hcurr, hmax, hjiffies, htimer⟩ := hm
  apply h.quiet hev hcurr (hmax ▸ h.max_pos) hjiffies.ge
  . intro hr e he
    apply h.due _ e (htimer ▸ he)
    intro q hq
    rw [hpc, Option.some.injEq] at hq
    subst hq
    cases hpc'' : pc' with
    | none => exact hnone hpc''
    | some q => exact (hpc' q hpc'').1 ▸ hr q hpc''
  . intro q hq hr
    have := h.handler pc hpc ((hpc' q hq).1 ▸ hr)
    exact this.mono hjiffies.ge
  . intro q max hq hp
    exact h.pending pc max hpc ((hpc' q hq).2 max hp)

theorem handlerStep (h : Accounts s trace) {pc : HandlerPc} (hpc : s.handler = some pc)
    : Accounts (pc.step s).1 ((pc.step s).2 ++ trace) := by
  cases pc with
  | check =>
    rw [HandlerPc.step]
    split
    . exact h.handler_frame hpc (by simp) ⟨rfl, rfl, rfl, rfl⟩ (by simp) (fun _ => rfl)
    . exact h.handler_frame hpc (by simp) ⟨rfl, rfl, rfl, rfl⟩
        (by simp [HandlerPc.refilled, HandlerPc.pendingMax]) (by simp)
  | readMax =>
    have hlog : tokenLog (.maxRead s.st.mon.maxSyscallsPerSec :: trace) = tokenLog trace := rfl
    have hspaced := h.handler _ hpc rfl
    refine ⟨h.balance, h.valid, h.past, h.sourced, h.max_pos, ?_, ?_, ?_⟩
    . intro _ e he
      apply h.due _ e he
      intro q hq
      rw [hpc, Option.some.injEq] at hq
      subst hq
      rfl
    . intro q _ _
      exact hspaced
    . intro q max hq hp
      cases hq
      cases hp
      exact ⟨h.max_pos, rfl⟩
  | readBlocked max =>
    have hquiet : ∀ x ∈ [Event.sampled (K := K) s.st.mon.blockedThread], x.Quiet := by
      simp only [List.mem_singleton, forall_eq]
      exact ⟨rfl, by simp⟩
    exact h.handler_frame hpc hquiet ⟨rfl, rfl, rfl, rfl⟩
      (by simp [HandlerPc.refilled, HandlerPc.pendingMax]) (by simp)
  | addSum max currBlocked =>
    exact h.handler_frame hpc (by simp [HandlerPc.step]) ⟨rfl, rfl, rfl, rfl⟩
      (by simp [HandlerPc.refilled, HandlerPc.pendingMax]) (by simp)
  | readPeak max currBlocked =>
    rw [HandlerPc.step]
    split
    all_goals
      exact h.handler_frame hpc (by simp) ⟨rfl, rfl, rfl, rfl⟩
        (by simp [HandlerPc.refilled, HandlerPc.pendingMax]) (by simp)
  | setPeak max currBlocked =>
    obtain ⟨info, hinfo⟩ := s.st.mon.setPeakBlocked_eq currBlocked
    rw [HandlerPc.step, hinfo]
    exact h.handler_frame hpc (by simp) ⟨rfl, rfl, rfl, rfl⟩
      (by simp [HandlerPc.refilled, HandlerPc.pendingMax]) (by simp)
  | readExponential max currBlocked =>
    exact h.handler_frame hpc (by simp [HandlerPc.step]) ⟨rfl, rfl, rfl, rfl⟩
      (by simp [HandlerPc.refilled, HandlerPc.pendingMax]) (by simp)
  | setExponential max temp =>
    exact h.handler_frame hpc (by simp [HandlerPc.step]) ⟨rfl, rfl, rfl, rfl⟩
      (by simp [HandlerPc.refilled, HandlerPc.pendingMax]) (by simp)
  | setCurr max =>
    have hspaced := h.handler _ hpc rfl
    obtain ⟨hpos, hrun⟩ := h.pending _ max hpc rfl
    have hlog : tokenLog (.refill max s.st.mon.jiffies :: trace)
        = .refill max s.st.mon.jiffies :: tokenLog trace := rfl
    refine ⟨?_, ?_, ?_, ⟨hrun, h.sourced⟩, h.max_pos, ?_, ?_, ?_⟩
    . change max = _
      rw [HandlerPc.step, List.singleton_append, hlog, Log.value, Log.spent]
      omega
    . exact .refill max _ h.valid h.past hspaced (by omega)
    . intro x hx
      rcases List.mem_cons.mp (hlog ▸ hx) with rfl | hx
      . exact Nat.le_refl _
      . exact h.past x hx
    . intro hr
      simpa [HandlerPc.refilled] using hr .wake rfl
    . intro q hq hr
      cases hq
      simp [HandlerPc.refilled] at hr
    . intro q max' hq hp
      cases hq
      cases hp
  | wake =>
    exact h.handler_frame hpc (by simp [HandlerPc.step]) ⟨rfl, rfl, rfl, rfl⟩
      (by simp [HandlerPc.refilled, HandlerPc.pendingMax]) (by simp)
  | modTimer =>
    refine ⟨h.balance, h.valid, h.past, h.sourced, h.max_pos, ?_, ?_, ?_⟩
    . intro _ e he
      cases he
      exact h.spaced_after
    . simp [HandlerPc.step, Shared.setHandler]
    . simp [HandlerPc.step, Shared.setHandler]

theorem same_mon (h : Accounts s trace) (hmon : s'.st.mon = s.st.mon)
    (hhandler : s'.handler = s.handler) : Accounts s' trace :=
  h.silent (by rw [hmon]) (by rw [hmon]; exact h.max_pos) (by rw [hmon]) hhandler
    (.inl (by rw [hmon]))

theorem envStep (h : Accounts s trace) {e : EnvStep} (hs : s.envStep e = some (s', ev))
    : Accounts s' (ev ++ trace) := by
  rcases Shared.envStep_cases hs with ⟨d, rfl, rfl⟩ | ⟨e, htimer, hhandler, hle, rfl, rfl⟩
    | ⟨pc, hpc, hs⟩ | ⟨newMax, rfl, rfl⟩ | ⟨_, _, _, _, rfl, rfl⟩
  . exact h.silent rfl h.max_pos (Nat.le_add_right _ _) rfl (.inl rfl)
  . exact h.expire htimer hhandler hle
  . have := h.handlerStep hpc
    rwa [hs] at this
  . unfold Monitor.setMaxSyscall
    split
    . exact h
    . exact h.silent rfl (by dsimp only [Shared.setMon]; omega) (Nat.le_refl _) rfl
        (.inl rfl)
  . exact h.same_mon rfl rfl

theorem wrapperStep {T : Type} (h : Accounts s trace) {i : Nat} {ch : Choice T} {w w' : Wrapper K}
    (hs : w.step i ch s = some (s', w', ev)) : Accounts s' (ev ++ trace) := by
  obtain ⟨hframe, hcharge, _⟩ := Wrapper.step_spec hs
  have hmon := hframe.mon
  have hmax : s'.st.mon.maxSyscallsPerSec = s.st.mon.maxSyscallsPerSec := by rw [hmon]
  have hjiffies : s'.st.mon.jiffies = s.st.mon.jiffies := by rw [hmon]
  have htimer : s'.st.mon.epochTimer = s.st.mon.epochTimer := by rw [hmon]
  rcases hcharge with ⟨hcurr, hno⟩ | ⟨hpos, hcurr, rfl⟩
  . refine h.frame ?_ hcurr (hmax ▸ h.max_pos) hjiffies.ge hframe.handler (.inl htimer)
    intro x hx
    have howner := Wrapper.owner_of_mem hs x hx
    cases x with
    | token j t => exact absurd hx (hno j t)
    | refill v t => cases howner
    | maxRead max => cases howner
    | _ => exact ⟨rfl, nofun⟩
  . exact h.token i hpos hcurr ⟨hmax, hjiffies, htimer⟩ hframe.handler

theorem switchOnStep (h : Accounts s trace) {pc pc' : SwitchOnPc}
    (hs : pc.step s = some (s', pc')) : Accounts s' trace := by
  cases pc with
  | cmpxchg =>
    simp only [SwitchOnPc.step] at hs
    split at hs <;> cases hs
    . exact h.silent rfl h.max_pos (Nat.le_refl _) rfl (.inl rfl)
    . exact h
  | startTime =>
    cases hs
    exact h.silent rfl h.max_pos (Nat.le_refl _) rfl (.inl rfl)
  | timerSetup =>
    cases hs
    exact h
  | modTimer =>
    cases hs
    exact h.silent rfl h.max_pos (Nat.le_refl _) rfl (.inr (.inr rfl))
  | done ret => cases hs

theorem switchOffStep (h : Accounts s trace) {pc pc' : SwitchOffPc}
    (hs : pc.step s = some (s', pc')) : Accounts s' trace := by
  cases pc with
  | cmpxchg =>
    simp only [SwitchOffPc.step] at hs
    split at hs <;> cases hs
    . exact h.silent rfl h.max_pos (Nat.le_refl _) rfl (.inl rfl)
    . exact h
  | wake =>
    cases hs
    exact h.silent rfl h.max_pos (Nat.le_refl _) rfl (.inl rfl)
  | readStart =>
    cases hs
    exact h
  | setElapsed temp =>
    cases hs
    exact h.silent rfl h.max_pos (Nat.le_refl _) rfl (.inl rfl)
  | timerDelete =>
    simp only [SwitchOffPc.step] at hs
    split at hs
    . cases hs
      exact h.silent rfl h.max_pos (Nat.le_refl _) rfl (.inr (.inl rfl))
    . contradiction
  | done ret => cases hs

theorem threadStep {s s' : Shared K} {ev trace : List (Event K)} (h : Accounts s trace) {i : Nat}
    {ch : Choice (Task K)} {t t' : Thread K} (hs : t.step i ch s = some (s', t', ev))
    : Accounts s' (ev ++ trace) := by
  rcases Thread.step_cases hs with ⟨_, rfl, rfl, _⟩ | ⟨w, w', _, _, h'⟩ | ⟨_, _, _, _, h', rfl⟩
    | ⟨_, _, _, _, h', rfl⟩ | ⟨_, _, _, _, h', rfl⟩ | ⟨_, _, _, _, h', rfl⟩
  . exact h
  . exact h.wrapperStep h'
  . exact h.switchOnStep h'
  . exact h.switchOffStep h'
  . have hframe := (Register.step_frame h').1
    exact h.same_mon hframe.mon hframe.handler
  . have hframe := (Deregister.step_frame h').1
    exact h.same_mon hframe.mon hframe.handler

theorem of_reachable {T : SyscallTable K} {c : Cfg K} (h : Reachable K T c)
    : Accounts c.shared c.trace := by
  obtain ⟨stats, now, h⟩ := h
  refine h.invariant (I := fun c => Accounts c.shared c.trace) (loaded T stats now) ?_
  intro c l c' hc _ hs
  cases l with
  | env e =>
    obtain ⟨s, ev, heq, rfl⟩ := System.step_env hs
    exact hc.envStep heq
  | run i ch =>
    obtain ⟨s, t, ev, heq, rfl⟩ := System.step_run hs
    exact hc.threadStep heq

end Accounts

def Event.isToken : Event K → Bool
  | .token _ _ => true
  | _ => false

structure Charged (i : Nat) (L : List (Event K)) : Prop where
  once : L.countP Event.isToken ≤ 1
  monitored : ∀ t, .token i t ∈ L → .sawMonitor i true ∈ L ∧ .checked i true ∈ L
  interrupted : .returned i (-EINTR) ∈ L → (∀ h regs, .executed i h regs (-EINTR) ∉ L) →
    ∀ t, .token i t ∉ L
  admitted : ∀ h regs ret, .executed i h regs ret ∈ L → .sawMonitor i true ∈ L →
    .checked i true ∈ L → (∀ t, .token i t ∉ L) → .sawOff i ∈ L

theorem Wrapper.Passed.charged {i : Nat} {w : Wrapper K} {L : List (Event K)} (h : Passed i w L)
    : Charged i L := by
  cases h <;> constructor <;> simp [Event.isToken, List.countP_cons]

theorem Wrapper.Finished.charged {i : Nat} {w : Wrapper K} {ret : Int} {L : List (Event K)}
    (h : Finished i w ret L) : Charged i L := by
  cases h with
  | direct h => constructor <;> simp [Event.isToken]
  | called h _ hp => cases hp <;> constructor <;> simp [Event.isToken, List.countP_cons]
  | notFound _ hp hret =>
    subst hret
    cases hp <;> constructor <;> simp [Event.isToken, List.countP_cons, ENOSYS, EINTR]
  | interrupted => constructor <;> simp [Event.isToken]

theorem Thread.Logged.charged {i : Nat} {t : Thread K} {L : List (Event K)} (h : t.Logged i L)
    : Charged i L := by
  have hnil : L = [] → Charged i L := by
    rintro rfl
    constructor <;> simp
  cases t with
  | wrapper w =>
    rcases Wrapper.Logged.shape h with rfl | rfl | ⟨b, rfl⟩ | h | ⟨ret, h⟩
    . exact hnil rfl
    . constructor <;> simp [Event.isToken]
    . constructor <;> simp [Event.isToken]
    . exact h.charged
    . exact h.charged
  | _ => exact hnil h

section Segments

variable {seg : List (Event K)}

theorem spent_segment (older : List (Event K)) (h : ∀ v t, .refill v t ∉ seg) (init : Int)
    : (tokenLog (seg ++ older)).spent = seg.countP Event.isToken + (tokenLog older).spent
      ∧ (tokenLog (seg ++ older)).value init = (tokenLog older).value init := by
  induction seg with
  | nil => simp
  | cons x seg ih =>
    obtain ⟨hspent, hvalue⟩ := ih fun v t hmem => h v t (List.mem_cons_of_mem _ hmem)
    cases x with
    | token i t =>
      have hlog : tokenLog (.token i t :: (seg ++ older)) = .take t :: tokenLog (seg ++ older) :=
        rfl
      rw [List.cons_append, hlog, Log.spent, Log.value, hspent, hvalue, List.countP_cons]
      simp only [Event.isToken, if_true, and_true]
      omega
    | refill v t => exact absurd List.mem_cons_self (h v t)
    | _ => exact ⟨hspent, hvalue⟩

theorem Sourced.of_append {older : List (Event K)} (h : Sourced (seg ++ older))
    : Sourced older := by
  induction seg with
  | nil => exact h
  | cons x seg ih =>
    cases x with
    | refill v t => exact ih h.2
    | _ => exact ih h

end Segments

theorem token_accounting {T : SyscallTable K} {c : Cfg K} (h : Reachable K T c)
    : 0 ≤ c.shared.st.mon.currSyscalls
      ∧ c.shared.st.mon.currSyscalls + (tokenLog c.trace).spent = (tokenLog c.trace).value 3
      ∧ (∀ newer v t older, c.trace = newer ++ .refill v t :: older → maxOfRun older = some v)
      ∧ (∀ i, c.trace.countP (fun x => x.isToken ∧ x.owner = some i) ≤ 1)
      ∧ (∀ i t, .token i t ∈ c.trace → .sawMonitor i true ∈ c.trace ∧ .checked i true ∈ c.trace)
      ∧ (∀ i, .returned i (-EINTR) ∈ c.trace → (∀ h regs, .executed i h regs (-EINTR) ∉ c.trace) →
        ∀ t, .token i t ∉ c.trace)
      ∧ (∀ i h regs ret, .executed i h regs ret ∈ c.trace → .sawMonitor i true ∈ c.trace →
        .checked i true ∈ c.trace → (∀ t, .token i t ∉ c.trace) → .sawOff i ∈ c.trace)
      ∧ ∀ newer seg v t older, c.trace = newer ++ (seg ++ .refill v t :: older) →
        (∀ v' t', .refill v' t' ∉ seg) → (seg.countP Event.isToken : Int) ≤ v := by
  have hacc := Accounts.of_reachable h
  have hcharged := fun i => (logged_of_reachable h i).charged
  have hmem : ∀ {i x}, x.owner = some i → (x ∈ c.own i ↔ x ∈ c.trace) := by
    intro i x hx
    rw [Cfg.mem_own, and_iff_left hx]
  refine ⟨hacc.nonneg, ?_, ?_, ?_, ?_, ?_, ?_, ?_⟩
  . have := hacc.balance
    omega
  . intro newer v t older heq
    have hs := hacc.sourced
    rw [heq] at hs
    exact hs.of_append.1
  . intro i
    have honce := (hcharged i).once
    rw [Cfg.own, System.own, List.countP_filter] at honce
    simpa using honce
  . intro i t ht
    obtain ⟨h1, h2⟩ := (hcharged i).monitored t ((hmem rfl).mpr ht)
    exact ⟨(hmem rfl).mp h1, (hmem rfl).mp h2⟩
  . intro i hret hno t ht
    refine (hcharged i).interrupted ((hmem rfl).mpr hret) ?_ t ((hmem rfl).mpr ht)
    exact fun h regs hex => hno h regs ((hmem rfl).mp hex)
  . intro i hd regs ret hex hsaw hcheck hno
    refine (hmem rfl).mp ((hcharged i).admitted hd regs ret ((hmem rfl).mpr hex)
      ((hmem rfl).mpr hsaw) ((hmem rfl).mpr hcheck) ?_)
    exact fun t ht => hno t ((hmem rfl).mp ht)
  . intro newer seg v t older heq hno
    -- the log from `seg` on was the whole log once, so it is valid whatever came after it
    have hvalid := hacc.valid
    rw [heq, tokenLog, List.filterMap_append] at hvalid
    have hle := Log.Valid.spent_epoch hvalid (by decide)
    obtain ⟨hspent, hvalue⟩ := spent_segment (.refill v t :: older) hno 3
    rw [tokenLog] at hspent hvalue
    rw [hspent, hvalue] at hle
    have hlast : tokenLog (.refill v t :: older) = .refill v t :: tokenLog older := rfl
    rw [hlast, Log.spent, Log.value] at hle
    omega

theorem token_accounting_once
    : let run := sampleRun (fun _ _ => true) (sampleSetup ++ sampleCall 1 :: steps 1 5)
      ∃ h : run.isSome, .token 1 0 ∈ (run.get h).trace
        ∧ (run.get h).shared.st.mon.currSyscalls = 2
        ∧ (run.get h).shared.st.mon.currSyscalls + (tokenLog (run.get h).trace).spent
          = (tokenLog (run.get h).trace).value 3 :=
  ⟨by decide, by decide, by decide, (token_accounting (reachable_sampleRun _)).2.1⟩

end Throttling

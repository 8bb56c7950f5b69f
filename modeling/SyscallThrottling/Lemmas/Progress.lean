import SyscallThrottling.Impl.System

/-!
This module contains the proof that an invocation of the wrapper which runs alone comes to an end:
it returns, or it falls asleep because there are no tokens.
-/

namespace Throttling

open Interleaving

variable {K : Platform}

/--
Left alone, the invocation returns or ends up asleep on the queue, and it takes no signal to get
there.
-/
inductive Settles (i : Nat) : Shared K → Wrapper K → Prop where
  | returned {s : Shared K} {w : Wrapper K} {ret : Int} (hpc : w.pc = .done ret) : Settles i s w
  | asleep {s : Shared K} {w : Wrapper K} (hpc : w.pc = .sleep) (hq : i ∈ s.st.mon.throttWq)
    : Settles i s w
  | call {s s' : Shared K} {w v : Wrapper K} {ev : List (Event K)} (ret : Int)
    (h : w.step (T := Task K) i (.result ret) s = some (s', v, ev)) (hnext : Settles i s' v)
    : Settles i s w
  | go {s s' : Shared K} {w v : Wrapper K} {ev : List (Event K)}
    (h : w.step (T := Task K) i .go s = some (s', v, ev)) (hnext : Settles i s' v) : Settles i s w

namespace Settles

variable {i : Nat} {s : Shared K} {w : Wrapper K}

theorem callOriginal : Settles i s (w.goto .callOriginal) := by
  cases hcall : w.toCall with
  | none =>
    have h : (w.goto .callOriginal).step (T := Task K) i .go s
        = some (s, w.goto (.done (-ENOSYS)), [.returned i (-ENOSYS)]) := by
      simp only [Wrapper.step, Wrapper.goto, hcall]
    exact .go h (.returned rfl)
  | some hd =>
    have h : (w.goto .callOriginal).step (T := Task K) i (.result 0) s
        = some (s, w.goto (.done 0), [.returned i 0, .executed i hd w.regs 0]) := by
      simp only [Wrapper.step, Wrapper.goto, hcall]
    exact .call 0 h (.returned rfl)

theorem statCompare (p : Ptr) : Settles i s (w.goto (.statCompare p)) := by
  by_cases hlt : (s.st.sys.stats p).peakDelay < w.delay
  . refine .go (v := w.goto (.statUpdate p)) (if_pos hlt) ?_
    exact .go (v := w.goto .callOriginal) rfl callOriginal
  . exact .go (v := w.goto .callOriginal) (if_neg hlt) callOriginal

theorem statLookup : Settles i s (w.goto .statLookup) := by
  cases hl : s.st.sys.lookup w.regs.origAx with
  | none =>
    have h : (w.goto .statLookup).step (T := Task K) i .go s
        = some (s, w.goto .callOriginal, []) := by
      simp only [Wrapper.step, Wrapper.goto, hl]
    exact .go h callOriginal
  | some entry =>
    have h : (w.goto .statLookup).step (T := Task K) i .go s
        = some (s.rcuReadLock i, w.goto (.statCompare entry.stats), []) := by
      simp only [Wrapper.step, Wrapper.goto, hl]
    exact .go h (statCompare entry.stats)

theorem tail : Settles i s w.tail := by
  unfold Wrapper.tail
  split
  . exact statLookup
  . exact callOriginal

structure NoToken (s : Shared K) : Prop where
  on : s.st.mon.isMonitorActive ≠ 0
  tokens : ¬s.st.mon.currSyscalls > 0

theorem enqueue_of_noToken (hs : NoToken s) : Settles i s (w.goto .enqueue) := by
  -- the condition of the wait is false in both parts, and the caller is on the queue
  refine .go (v := w.goto .testMonitor) rfl ?_
  refine .go (v := w.goto .testTokens) (if_neg hs.on) ?_
  refine .go (v := w.goto .sleep) (if_neg hs.tokens) ?_
  exact .asleep rfl List.mem_cons_self

theorem incBlocked_of_noToken (hs : NoToken s) : Settles i s (w.goto .incBlocked) := by
  refine .go (v := w.goto .startWait) rfl ?_
  refine .go rfl (enqueue_of_noToken ?_)
  exact ⟨hs.on, hs.tokens⟩

theorem takeToken : Settles i s (w.goto .takeToken) := by
  by_cases htok : s.st.mon.currSyscalls > 0
  . exact .go (if_pos htok) tail
  . -- without other threads, what the caller does not find here the wait does not find either
    refine .go (v := w.goto .recheck) (if_neg htok) ?_
    by_cases hoff : s.st.mon.isMonitorActive = 0
    . exact .go (if_pos hoff) tail
    . exact .go (v := w.goto .incBlocked) (if_neg hoff) (incBlocked_of_noToken ⟨hoff, htok⟩)

theorem addDelay : Settles i s (w.goto .addDelay) :=
  .go rfl takeToken

theorem decBlocked (waitRet : Int) : Settles i s (w.goto (.decBlocked waitRet)) := by
  by_cases hret : waitRet ≠ 0
  . exact .go (v := w.goto (.done (-EINTR))) (if_pos hret) (.returned rfl)
  . exact .go (v := w.goto .addDelay) (if_neg hret) addDelay

theorem enqueue : Settles i s (w.goto .enqueue) := by
  by_cases hs : NoToken s
  . exact enqueue_of_noToken hs
  . refine .go (v := w.goto .testMonitor) rfl ?_
    by_cases hoff : s.st.mon.isMonitorActive = 0
    . exact .go (v := w.goto (.decBlocked 0)) (if_pos hoff) (decBlocked 0)
    . have htok : s.st.mon.currSyscalls > 0 := by
        by_contra htok
        exact hs ⟨hoff, htok⟩
      refine .go (v := w.goto .testTokens) (if_neg hoff) ?_
      exact .go (v := w.goto (.decBlocked 0)) (if_pos htok) (decBlocked 0)

theorem sleep : Settles i s (w.goto .sleep) := by
  by_cases hq : i ∈ s.st.mon.throttWq
  . exact .asleep rfl hq
  . exact .go (v := w.goto .enqueue) (if_neg hq) enqueue

theorem testTokens : Settles i s (w.goto .testTokens) := by
  by_cases htok : s.st.mon.currSyscalls > 0
  . exact .go (v := w.goto (.decBlocked 0)) (if_pos htok) (decBlocked 0)
  . exact .go (v := w.goto .sleep) (if_neg htok) sleep

theorem testMonitor : Settles i s (w.goto .testMonitor) := by
  by_cases hoff : s.st.mon.isMonitorActive = 0
  . exact .go (v := w.goto (.decBlocked 0)) (if_pos hoff) (decBlocked 0)
  . exact .go (v := w.goto .testTokens) (if_neg hoff) testTokens

theorem startWait : Settles i s (w.goto .startWait) :=
  .go rfl enqueue

theorem incBlocked : Settles i s (w.goto .incBlocked) :=
  .go (v := w.goto .startWait) rfl startWait

theorem recheck : Settles i s (w.goto .recheck) := by
  by_cases hoff : s.st.mon.isMonitorActive = 0
  . exact .go (if_pos hoff) tail
  . exact .go (v := w.goto .incBlocked) (if_neg hoff) incBlocked

theorem lookup : Settles i s (w.goto .lookup) := by
  by_cases hneed : w.needMon = false
  . exact .go (if_pos hneed) tail
  . exact .go (if_neg hneed) takeToken

theorem checkProg : Settles i s (w.goto .checkProg) :=
  .go rfl lookup

theorem checkUid : Settles i s (w.goto .checkUid) := by
  by_cases huid : Throttling.checkUid K w.euid s.st.uids ≠ 0
  . exact .go (if_pos huid) lookup
  . exact .go (v := w.goto .checkProg) (if_neg huid) checkProg

theorem entry : Settles i s (w.goto .entry) := by
  by_cases hoff : s.st.mon.isMonitorActive = 0
  . exact .go (if_pos hoff) tail
  . exact .go (v := w.goto .checkUid) (if_neg hoff) checkUid

theorem direct (hd : Handler) : Settles i s (w.goto (.direct hd)) :=
  .call 0 (v := w.goto (.done 0)) rfl (.returned rfl)

theorem dispatch : Settles i s (w.goto .dispatch) := by
  cases htbl : s.st.sys.hackedSyscallTbl w.regs.origAx with
  | throttlingWrapper =>
    have h : (w.goto .dispatch).step (T := Task K) i .go s = some (s, w.goto .entry, []) := by
      simp only [Wrapper.step, Wrapper.goto, htbl]
    exact .go h entry
  | kernel addr =>
    have h : (w.goto .dispatch).step (T := Task K) i .go s
        = some (s, w.goto (.direct (.kernel addr)), []) := by
      simp only [Wrapper.step, Wrapper.goto, htbl]
    exact .go h (direct _)

protected theorem all (i : Nat) (s : Shared K) (w : Wrapper K) : Settles i s w := by
  have hw : w.goto w.pc = w := rfl
  rw [← hw]
  cases w.pc with
  | dispatch => exact dispatch
  | direct hd => exact direct hd
  | entry => exact entry
  | checkUid => exact checkUid
  | checkProg => exact checkProg
  | lookup => exact lookup
  | takeToken => exact takeToken
  | recheck => exact recheck
  | incBlocked => exact incBlocked
  | startWait => exact startWait
  | enqueue => exact enqueue
  | testMonitor => exact testMonitor
  | testTokens => exact testTokens
  | sleep => exact sleep
  | decBlocked waitRet => exact decBlocked waitRet
  | addDelay => exact addDelay
  | statLookup => exact statLookup
  | statCompare p => exact statCompare p
  | statUpdate p => exact .go (v := w.goto .callOriginal) rfl callOriginal
  | callOriginal => exact callOriginal
  | done ret => exact .returned rfl

end Settles

def Choice.Unsignalled {U : Type} : Choice U → Prop
  | .go => True
  | .result _ => True
  | _ => False

def Alone (i : Nat) (l : Lbl K) : Prop :=
  ∃ ch : Choice (Task K), ch.Unsignalled ∧ l = .run i ch

def Cfg.Settled (c : Cfg K) (i : Nat) : Prop :=
  ∃ w, c.locals i = .wrapper w ∧
    ((∃ ret, w.pc = .done ret) ∨ w.pc = .sleep ∧ i ∈ c.shared.st.mon.throttWq)

theorem Settles.solo {i : Nat} {s : Shared K} {w : Wrapper K} (h : Settles i s w)
    (trace : List (Event K))
    : ∃ s' w' trace',
      (throttling K).Solo i Choice.Unsignalled s (.wrapper w) trace s' (.wrapper w') trace'
        ∧ ((∃ ret, w'.pc = .done ret) ∨ w'.pc = .sleep ∧ i ∈ s'.st.mon.throttWq) := by
  have hthread : ∀ {ch : Choice (Task K)} {s s' : Shared K} {w v : Wrapper K} {ev : List (Event K)},
      w.step i ch s = some (s', v, ev) →
        (throttling K).thread i ch s (.wrapper w) = some (s', .wrapper v, ev) := by
    intro ch s s' w v ev h
    simp only [throttling, Thread.step, h, Option.map_some]
  induction h generalizing trace with
  | returned hpc => exact ⟨_, _, _, .refl, .inl ⟨_, hpc⟩⟩
  | asleep hpc hq => exact ⟨_, _, _, .refl, .inr ⟨hpc, hq⟩⟩
  | @call _ _ _ _ ev ret h _ ih =>
    obtain ⟨s', w', trace', hsolo, hend⟩ := ih (ev ++ trace)
    exact ⟨s', w', trace', .head (.result ret) trivial (hthread h) hsolo, hend⟩
  | @go _ _ _ _ ev h _ ih =>
    obtain ⟨s', w', trace', hsolo, hend⟩ := ih (ev ++ trace)
    exact ⟨s', w', trace', .head .go trivial (hthread h) hsolo, hend⟩

theorem exists_settled {c : Cfg K} {i : Nat} {w : Wrapper K} (hw : c.locals i = .wrapper w)
    : ∃ c' : Cfg K, (throttling K).Run (fun _ l => Alone i l) c c' ∧ c'.Settled i := by
  obtain ⟨s', w', trace', hsolo, hend⟩ := (Settles.all i c.shared w).solo c.trace
  exact ⟨_, hsolo.run rfl hw rfl, w', Function.update_self .., hend⟩

end Throttling

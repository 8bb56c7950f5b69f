import SyscallThrottling.Lemmas.Balance

/-!
This module contains that no reader holds an object that was freed, as long as the nodes that
`cleanup_rcu` frees have outlived the sections in which they could be found.
-/

namespace Throttling

open Interleaving Reclamation Heap

variable {K : Platform}

/--
The kfree of `cleanup_rcu` comes after the sections that were open at its hash_del have ended.
-/
def AfterGrace (c : RcuCfg K) : RcuLbl K → Prop
  | .env _ => True
  | .run i _ => ∀ kind entry, c.locals i = .cleanup (.kfree kind entry)
    → Grace c.shared.sections c.trace entry

structure Objects (s : State K) : Prop where
  heap : s.heap.WellFormed
  nodup : s.owned.Nodup
  live : ∀ p ∈ s.owned, p ∈ s.heap.live

theorem Account.objects {s : State K} {leaked : List Ptr} (h : Account s leaked) : Objects s where
  heap := h.heap
  nodup := h.nodup_owned
  live _ hp := h.live.mem_iff.mpr (List.mem_append_left leaked hp)

namespace Objects

variable {s s' : State K} {ps : List Ptr}

theorem gains (h : Objects s) (hg : Gains s s' ps) : Objects s' where
  heap := h.heap.extends hg.heap
  nodup := by
    rw [hg.owned.nodup_iff, List.nodup_append']
    refine ⟨hg.heap.nodup, h.nodup, fun p hp hp' => ?_⟩
    exact not_lt_of_ge (hg.heap.fresh p hp).1 (h.heap.fresh p (h.live p hp'))
  live p hp := by
    rw [hg.heap.live]
    exact List.mem_append.mpr ((List.mem_append.mp (hg.owned.mem_iff.mp hp)).imp_right (h.live p))

theorem unlinks (h : Objects s) (hheap : s'.heap = s.heap) (howned : s.owned.Perm (ps ++ s'.owned))
    : Objects s' where
  heap := hheap ▸ h.heap
  nodup := (List.nodup_append.mp (howned.nodup_iff.mp h.nodup)).2.1
  live p hp := hheap ▸ h.live p (howned.mem_iff.mpr (List.mem_append_right ps hp))

theorem kfree (h : Objects s) (hps : ∀ p ∈ ps, p ∉ s.owned)
    : Objects { s with heap := ps.foldl Heap.kfree s.heap } where
  heap := h.heap.foldl_kfree ps
  nodup := h.nodup
  live p hp := mem_foldl_kfree (h.live p hp) fun hmem => hps p hmem hp

end Objects

section Found

variable {α : Type} {s : State K} {p : Ptr}

theorem mem_of_mem_walked {q : α → Bool} {l : List α} {x : α} (h : x ∈ walked q l) : x ∈ l := by
  induction l with
  | nil => exact h
  | cons y l ih =>
    unfold walked at h
    split at h
    . rw [List.mem_singleton] at h
      exact h ▸ List.mem_cons_self
    . rcases List.mem_cons.mp h with rfl | h
      . exact List.mem_cons_self
      . exact List.mem_cons_of_mem y (ih h)

theorem State.mem_owned_sys {x : HackedSyscall K} (h : x ∈ s.sys.hackedSyscallHash.toList)
    : x.addr ∈ s.owned ∧ x.stats ∈ s.owned := by
  constructor <;> exact List.mem_append_left _ (List.mem_flatMap.mpr ⟨x, h, by simp⟩)

theorem State.mem_owned_uid {b : Fin 256} {l : List RegisteredUid}
    (h : ∀ x ∈ l, x ∈ s.uids.uidHash.bucket b) (hp : p ∈ l.map (·.addr)) : p ∈ s.owned := by
  obtain ⟨x, hx, rfl⟩ := List.mem_map.mp hp
  exact List.mem_append_right _ (List.mem_append_left _
    (List.mem_map_of_mem (HashTable.mem_toList.mpr ⟨b, h x hx⟩)))

theorem State.mem_owned_prog {b : Fin 256} {l : List RegisteredProg}
    (h : ∀ x ∈ l, x ∈ s.progs.progHash.bucket b) (hp : p ∈ l.map (·.addr)) : p ∈ s.owned := by
  obtain ⟨x, hx, rfl⟩ := List.mem_map.mp hp
  exact List.mem_append_right _ (List.mem_append_right _
    (List.mem_map_of_mem (HashTable.mem_toList.mpr ⟨b, h x hx⟩)))

theorem State.mem_owned_walkedSyscalls {n : Fin K.nrSyscalls}
    (hp : p ∈ (s.walkedSyscalls n).map (·.addr)) : p ∈ s.owned := by
  obtain ⟨x, hx, rfl⟩ := List.mem_map.mp hp
  exact (mem_owned_sys (HashTable.mem_toList.mpr ⟨_, mem_of_mem_walked hx⟩)).1

theorem State.mem_owned_stats {n : Fin K.nrSyscalls}
    (hp : p ∈ (s.walkedSyscalls n).map (·.addr) ++ (s.sys.lookup n).toList.map (·.stats))
    : p ∈ s.owned := by
  rcases List.mem_append.mp hp with hp | hp
  . exact mem_owned_walkedSyscalls hp
  . obtain ⟨x, hx, rfl⟩ := List.mem_map.mp hp
    exact (mem_owned_sys (HashTable.mem_toList_of_find? (Option.mem_toList.mp hx))).2

theorem State.found_owned {copied k : Nat} {op : ReadOp K} (hp : p ∈ (s.found copied k op).1)
    : p ∈ s.owned := by
  cases op with
  | checkSyscall n => simp [found] at hp
  | getAllSyscalls inMax => simp [found] at hp
  | checkUid userId => exact mem_owned_uid (fun _ => mem_of_mem_walked) hp
  | checkProgname progName => exact mem_owned_prog (fun _ => mem_of_mem_walked) hp
  | getSyscallStats n => exact mem_owned_stats hp
  | checkAndSetStatistic n => exact mem_owned_stats hp
  | throttlingWrapper n => exact mem_owned_walkedSyscalls hp
  | getAllUids inMax => exact mem_owned_uid (fun _ => List.mem_of_mem_take) hp
  | getAllProgs inMax => exact mem_owned_prog (fun _ => List.mem_of_mem_take) hp

end Found

structure Rcu.Safe (s : Rcu K) (L : List (Reclamation.Event Ptr)) : Prop where
  objects : Objects s.st
  safe : Reclamation.Safe s.sections { p | p ∈ s.st.owned } { p | p ∈ s.st.heap.live } L
  fresh : ∀ p before, .unlinked p before ∈ L → p < s.st.heap.brk

namespace Rcu.Safe

variable {s : Rcu K} {st : State K} {L : List (Reclamation.Event Ptr)} {ps : List Ptr}

theorem gains (h : s.Safe L) (hg : Gains s.st st ps) : (s.setState st).Safe L where
  objects := h.objects.gains hg
  safe := by
    refine h.safe.link ps ?_ ?_ (h.objects.gains hg).live ?_
    . intro p hp
      exact List.mem_append.mp (hg.owned.mem_iff.mp hp)
    . intro p hp before hmem
      exact not_lt_of_ge (hg.heap.fresh p hp).1 (h.fresh p before hmem)
    . intro p hp
      change p ∈ st.heap.live
      rw [hg.heap.live]
      exact List.mem_append_right ps hp
  fresh p before hmem := (h.fresh p before hmem).trans_le hg.heap.le

theorem unlinks (h : s.Safe L) (hheap : st.heap = s.st.heap)
    (howned : s.st.owned.Perm (ps ++ st.owned))
    : (s.setState st).Safe (ps.map (.unlinked · s.sections) ++ L) where
  objects := h.objects.unlinks hheap howned
  safe := by
    have hnodup := List.nodup_append'.mp (howned.nodup_iff.mp h.objects.nodup)
    change Reclamation.Safe s.sections _ { p | p ∈ st.heap.live } _
    rw [hheap]
    refine h.safe.unlink fun p => ?_
    change p ∈ st.owned ↔ p ∈ s.st.owned ∧ p ∉ ps
    rw [howned.mem_iff, List.mem_append]
    constructor
    . exact fun hp => ⟨.inr hp, fun hp' => hnodup.2.2 hp' hp⟩
    . exact fun hp => hp.1.resolve_left hp.2
  fresh p before hmem := by
    change p < st.heap.brk
    rw [hheap]
    rcases List.mem_append.mp hmem with hmem | hmem
    . obtain ⟨q, hq, heq⟩ := List.mem_map.mp hmem
      cases heq
      exact h.objects.heap.fresh _
        (h.objects.live _ (howned.mem_iff.mpr (List.mem_append_left _ hq)))
    . exact h.fresh p before hmem

theorem kfree (h : s.Safe L) (hps : ∀ p ∈ ps, ∃ before, .unlinked p before ∈ L)
    (hheld : ∀ p ∈ ps, ∀ i, ¬Holds L i p) : (s.kfree ps).Safe L := by
  have hnot : ∀ p ∈ ps, p ∉ s.st.owned := fun p hp => (hps p hp).elim fun _ => h.safe.notLinked
  refine ⟨h.objects.kfree hnot, h.safe.release hnot hheld fun p hp hmem => ?_, ?_⟩
  . exact mem_foldl_kfree hp hmem
  . intro p before hmem
    exact (brk_foldl_kfree s.st.heap ps).symm ▸ h.fresh p before hmem

end Rcu.Safe

def Unlinked (L : List (Reclamation.Event Ptr)) (p : Ptr) : Prop :=
  ∃ before, .unlinked p before ∈ L

def RcuThread.Fact (i : Nat) (s : Rcu K) (L : List (Reclamation.Event Ptr)) : RcuThread K → Prop
  | .idle => .left i ∉ L
  | .reader r =>
    match r.pc with
    | .lock => r.held = [] ∧ .left i ∉ L
    | .done => i ∉ s.sections
    | _ => i ∈ s.sections ∧ .left i ∉ L ∧ ∀ p ∈ r.held, Holds L i p
  | .remover f =>
    match f.pc with
    | .synchronize ps => ∀ p ∈ ps, Unlinked L p
    | .free ps waitFor => ∀ p ∈ ps, Retired L waitFor p
    | _ => True
  | .cleanup pc =>
    match pc with
    | .kfree _ entry => Unlinked L entry
    | _ => True

structure OtherStep (i : Nat) (s s' : Rcu K) (ev : List (Reclamation.Event Ptr)) : Prop where
  sections : i ∈ s'.sections ↔ i ∈ s.sections
  left : .left i ∉ ev
  found : ∀ j p, .found j p ∈ ev → p ∈ s.st.owned

theorem OtherStep.quiet {i : Nat} {s s' : Rcu K} {ev : List (Reclamation.Event Ptr)}
    (hsections : s'.sections = s.sections) (hev : ∀ x ∈ ev, ∃ p before, x = .unlinked p before)
    : OtherStep i s s' ev where
  sections := by rw [hsections]
  left h := by
    obtain ⟨_, _, heq⟩ := hev _ h
    cases heq
  found j p h := by
    obtain ⟨_, _, heq⟩ := hev _ h
    cases heq

theorem RcuThread.Fact.other {i : Nat} {s s' : Rcu K} {L ev : List (Reclamation.Event Ptr)}
    {t : RcuThread K} (h : t.Fact i s L) (hsafe : s.Safe L) (hstep : OtherStep i s s' ev)
    : t.Fact i s' (ev ++ L) := by
  have hleft : .left i ∉ L → .left i ∉ ev ++ L := fun h hmem =>
    (List.mem_append.mp hmem).elim hstep.left h
  have hunlinked : ∀ {p}, Unlinked L p → Unlinked (ev ++ L) p := fun h =>
    h.imp fun _ hmem => List.mem_append_right ev hmem
  cases t with
  | idle => exact hleft h
  | reader r =>
    cases hpc : r.pc <;> simp only [Fact, hpc] at h ⊢
    case lock => exact ⟨h.1, hleft h.2⟩
    case done => rwa [hstep.sections]
    all_goals
      exact ⟨hstep.sections.mpr h.1, hleft h.2.1, fun p hp => (h.2.2 p hp).append hstep.left⟩
  | remover f =>
    cases hpc : f.pc <;> simp only [Fact, hpc] at h ⊢
    case synchronize ps => exact fun p hp => hunlinked (h p hp)
    case free ps waitFor =>
      intro p hp
      obtain ⟨before, hmem⟩ := (h p hp).unlinked
      -- an unlinked object is not found again
      exact (h p hp).append fun j hj => hsafe.safe.notLinked hmem (hstep.found j p hj)
  | cleanup pc =>
    cases pc <;> simp only [Fact] at h ⊢
    exact hunlinked h

section Steps

variable {i : Nat} {s s' : Rcu K} {L ev : List (Reclamation.Event Ptr)}

theorem Reader.fact_step {r r' : Reader K} (hsafe : s.Safe L)
    (h : (RcuThread.reader r).Fact i s L) (hs : r.step i s = some (s', r', ev))
    : s'.Safe (ev ++ L) ∧ (RcuThread.reader r').Fact i s' (ev ++ L)
      ∧ ∀ j, j ≠ i → OtherStep j s s' ev := by
  unfold Reader.step at hs
  split at hs
  . next hpc =>
    cases hs
    simp only [RcuThread.Fact, hpc] at h
    refine ⟨⟨hsafe.objects, hsafe.safe.enter i, hsafe.fresh⟩, ?_, fun j hj => ⟨?_, by simp, by simp⟩⟩
    . simp [RcuThread.Fact, goto, h]
    . simp [hj]
  . next k hpc =>
    simp only [RcuThread.Fact, hpc] at h
    dsimp only at hs
    split at hs
    . generalize hfound : s.st.found r.held.length k r.op = found at hs
      obtain ⟨ps, stop⟩ := found
      cases hs
      have hps : ∀ p ∈ ps, p ∈ s.st.owned := by
        intro p hp
        have hp : p ∈ (s.st.found r.held.length k r.op).1 := by rwa [hfound]
        exact State.found_owned hp
      refine ⟨⟨hsafe.objects, hsafe.safe.find h.1 hps, ?_⟩, ?_, fun j _ => ⟨.rfl, by simp, ?_⟩⟩
      . intro p before hmem
        exact hsafe.fresh p before (by simpa using hmem)
      . have hleft : .left i ∉ ps.map (.found i) ++ L := by simp [h.2.1]
        have hheld : ∀ p ∈ r.held ++ ps, Holds (ps.map (.found i) ++ L) i p := by
          intro p hp
          rcases List.mem_append.mp hp with hp | hp
          . exact (h.2.2 p hp).append (by simp)
          . exact ⟨List.mem_append_left L (List.mem_map_of_mem hp), hleft⟩
        cases stop <;> exact ⟨h.1, hleft, hheld⟩
      . intro j p hmem
        obtain ⟨q, hq, heq⟩ := List.mem_map.mp hmem
        cases heq
        exact hps _ hq
    . cases hs
      exact ⟨hsafe, h, fun j _ => .quiet rfl (by simp)⟩
  . next hpc =>
    cases hs
    refine ⟨⟨hsafe.objects, hsafe.safe.leave i, ?_⟩, ?_, fun j hj => ⟨?_, ?_, by simp⟩⟩
    . intro p before hmem
      exact hsafe.fresh p before (by simpa using hmem)
    . simp [RcuThread.Fact, goto]
    . simp [hj]
    . simp [hj]
  . cases hs

theorem Remover.fact_step {f f' : Remover K} (hsafe : s.Safe L)
    (h : (RcuThread.remover f).Fact i s L) (hs : f.step s = some (s', f', ev))
    : s'.Safe (ev ++ L) ∧ (RcuThread.remover f').Fact i s' (ev ++ L)
      ∧ ∀ j, j ≠ i → OtherStep j s s' ev := by
  unfold Remover.step at hs
  split at hs
  . split at hs
    . split at hs
      . cases hs
        exact ⟨hsafe, trivial, fun j _ => .quiet rfl (by simp)⟩
      . next ps st hunlink =>
        cases hs
        obtain ⟨hheap, howned⟩ := State.unlink_ok hsafe.objects.nodup hunlink
        refine ⟨hsafe.unlinks hheap howned, ?_, fun j _ => .quiet rfl (by simp)⟩
        exact fun p hp => ⟨s.sections, List.mem_append_left L (List.mem_map_of_mem hp)⟩
    . cases hs
  . next ps hpc =>
    cases hs
    simp only [RcuThread.Fact, hpc] at h
    exact ⟨hsafe, fun p hp => hsafe.safe.retired (h p hp), fun j _ => .quiet rfl (by simp)⟩
  . next ps waitFor hpc =>
    simp only [RcuThread.Fact, hpc] at h
    split at hs
    . next hend =>
      cases hs
      refine ⟨hsafe.kfree (fun p hp => (h p hp).unlinked) ?_, trivial, fun j _ => .quiet rfl (by simp)⟩
      exact fun p hp => hsafe.safe.not_holds_of_retired (h p hp) hend
    . cases hs
  . cases hs

theorem CleanupPc.fact_step {pc pc' : CleanupPc} (hsafe : s.Safe L)
    (h : (RcuThread.cleanup pc : RcuThread K).Fact i s L)
    (hgrace : ∀ kind entry, pc = .kfree kind entry → Grace s.sections L entry)
    (hs : pc.step i s = some (s', pc', ev))
    : s'.Safe (ev ++ L) ∧ (RcuThread.cleanup pc' : RcuThread K).Fact i s' (ev ++ L)
      ∧ ∀ j, j ≠ i → OtherStep j s s' ev := by
  cases pc <;> dsimp only [CleanupPc.step] at hs
  case switchOff =>
    cases hs
    exact ⟨⟨⟨hsafe.objects.heap, hsafe.objects.nodup, hsafe.objects.live⟩, hsafe.safe, hsafe.fresh⟩,
      trivial, fun j _ => .quiet rfl (by simp)⟩
  case synchronize =>
    cases hs
    exact ⟨hsafe, trivial, fun j _ => .quiet rfl (by simp)⟩
  case wait =>
    split at hs <;> cases hs
    exact ⟨hsafe, trivial, fun j _ => .quiet rfl (by simp)⟩
  case lock =>
    split at hs <;> cases hs
    exact ⟨⟨hsafe.objects, hsafe.safe, hsafe.fresh⟩, trivial, fun j _ => .quiet rfl (by simp)⟩
  case hashDel kind =>
    split at hs
    . next entry ps st hfirst =>
      cases hs
      obtain ⟨hheap, howned, hmem⟩ := State.unlinkFirst_some hsafe.objects.nodup hfirst
      refine ⟨hsafe.unlinks hheap howned, ?_, fun j _ => .quiet rfl (by simp)⟩
      exact ⟨s.sections, List.mem_append_left L (List.mem_map_of_mem hmem)⟩
    . cases hs
      exact ⟨hsafe, by cases kind <;> trivial, fun j _ => .quiet rfl (by simp)⟩
  case kfree kind entry =>
    cases hs
    have hnot := hsafe.safe.not_holds_of_grace h (hgrace kind entry rfl)
    refine ⟨hsafe.kfree ?_ ?_, trivial, fun j _ => .quiet rfl (by simp)⟩
    . intro p hp
      rw [List.mem_singleton.mp hp]
      exact h
    . intro p hp
      rw [List.mem_singleton.mp hp]
      exact hnot
  case unlock =>
    cases hs
    exact ⟨⟨hsafe.objects, hsafe.safe, hsafe.fresh⟩, trivial, fun j _ => .quiet rfl (by simp)⟩
  case done => cases hs

end Steps

def rcuOutline (K : Platform) : System.Outline (reclaiming K) AfterGrace where
  shared s L := s.Safe L
  thread i s L t := t.Fact i s L
  env_ok := by
    intro c r s ev _ hsafe heq
    dsimp only [reclaiming] at heq
    split at heq <;> cases heq
    obtain ⟨ps, hg⟩ := r.gains c.shared.st
    exact ⟨hsafe.gains hg, fun j t ht => ht.other hsafe (.quiet rfl (by simp))⟩
  thread_ok := by
    intro c i ch s t ev hg hsafe ht heq
    dsimp only [reclaiming] at heq
    suffices h : s.Safe (ev ++ c.trace) ∧ t.Fact i s (ev ++ c.trace)
        ∧ ∀ j, j ≠ i → OtherStep j c.shared s ev from
      ⟨h.1, h.2.1, fun j u hj hu => hu.other hsafe (h.2.2 j hj)⟩
    generalize hthread : c.locals i = thread at ht heq
    cases thread with
    | idle =>
      cases ch <;> cases heq
      next task =>
      refine ⟨hsafe, ?_, fun j _ => .quiet rfl (by simp)⟩
      cases task with
      | read op => exact ⟨rfl, ht⟩
      | remove removal => trivial
      | cleanup => trivial
    | reader r =>
      obtain ⟨⟨s', r', ev'⟩, hstep, h⟩ := Option.map_eq_some_iff.mp heq
      cases h
      exact Reader.fact_step hsafe ht hstep
    | remover f =>
      obtain ⟨⟨s', f', ev'⟩, hstep, h⟩ := Option.map_eq_some_iff.mp heq
      cases h
      exact Remover.fact_step hsafe ht hstep
    | cleanup pc =>
      obtain ⟨⟨s', pc', ev'⟩, hstep, h⟩ := Option.map_eq_some_iff.mp heq
      cases h
      refine CleanupPc.fact_step hsafe ht ?_ hstep
      rintro kind entry rfl
      exact hg kind entry hthread

section Run

variable {c : RcuCfg K} {i : Nat}

/--
No reader holds an object that was freed, as long as every node that `cleanup_rcu` frees has
outlived the sections that were open when it was unlinked.
-/
theorem held_not_freed (T : SyscallTable K) (stats : Ptr → SyscallStats) (now : Nat) (ops : List Op)
    (hrun : (reclaiming K).Run AfterGrace (rcuStart (Op.run (State.loaded K T stats now) ops)) c)
    (hopen : i ∈ c.shared.sections) : ∀ p ∈ (c.locals i).held, p ∈ c.shared.st.heap.live := by
  obtain ⟨leaked, hacc, _⟩ := (Account.loaded T stats now).run (.loaded T stats now) ops
  have hobj := hacc.objects
  have hholds := (rcuOutline K).holds_of_run hrun
    ⟨⟨hobj, .nil hobj.live, fun p before hmem => by cases hmem⟩, fun i => by
      simp [rcuOutline, rcuStart, RcuThread.Fact]⟩
  have hfact : (c.locals i).Fact i c.shared c.trace := hholds.2 i
  cases ht : c.locals i with
  | reader r =>
    rw [ht] at hfact
    intro p hp
    rw [RcuThread.held] at hp
    cases hpc : r.pc <;> simp only [RcuThread.Fact, hpc] at hfact
    case lock => simp [hfact.1] at hp
    case done => exact absurd hopen hfact
    all_goals exact hholds.1.safe.held (hfact.2.2 p hp)
  | _ => simp [RcuThread.held]

def afterGrace (c : RcuCfg K) : RcuLbl K → Bool
  | .env _ => true
  | .run i _ =>
    match c.locals i with
    | .cleanup (.kfree _ entry) => c.trace.all fun
      | .unlinked p before => p = entry → ∀ j ∈ before, j ∉ c.shared.sections
      | _ => true
    | _ => true

theorem of_afterGrace {l : RcuLbl K} (h : afterGrace c l = true) : AfterGrace c l := by
  cases l with
  | env r => trivial
  | run i ch =>
    intro kind entry hpc before hmem
    simp only [afterGrace, hpc, List.all_eq_true] at h
    exact of_decide_eq_true (h _ hmem) rfl

end Run

def twoUids : State Platform.sample :=
  Op.run (State.loaded Platform.sample SyscallTable.sample (fun _ => .zero) 0)
    [.ioctl Env.sample 0 (.registerUid 1000), .ioctl Env.sample 0 (.registerUid 1001)]

def rcuSteps (i k : Nat) : List (RcuLbl Platform.sample) :=
  List.replicate k (.run i .go)

/-- Thread 0 is the cleanup. After its sixth step the node of 1001 is unlinked. -/
def readAfterUnlink : List (RcuLbl Platform.sample) :=
  .run 0 (.start .cleanup) :: rcuSteps 0 6
    ++ .run 1 (.start (.read (.checkUid 1000))) :: rcuSteps 1 2 ++ rcuSteps 0 1

theorem isSome_readAfterUnlink
    : ((reclaiming Platform.sample).exec afterGrace (rcuStart twoUids) readAfterUnlink).isSome := by
  decide +kernel

theorem held_not_freed_readAfterUnlink
    : let c := ((reclaiming Platform.sample).exec afterGrace (rcuStart twoUids) readAfterUnlink).get
        isSome_readAfterUnlink
      (c.locals 1).held = [1] ∧ ∀ p ∈ (c.locals 1).held, p ∈ c.shared.st.heap.live := by
  intro c
  have hrun : (reclaiming Platform.sample).Run AfterGrace (rcuStart twoUids) c :=
    (System.run_exec_get isSome_readAfterUnlink).mono fun _ _ => of_afterGrace
  have hopen : 1 ∈ c.shared.sections := by
    decide +kernel
  exact ⟨by decide +kernel, held_not_freed SyscallTable.sample (fun _ => .zero) 0 _ hrun hopen⟩

/-- The reader opens its section after the wait of the cleanup, and finds the node of 1001. -/
def readAfterWait : List (RcuLbl Platform.sample) :=
  .run 0 (.start .cleanup) :: rcuSteps 0 3
    ++ .run 1 (.start (.read (.checkUid 1001))) :: rcuSteps 1 2 ++ rcuSteps 0 4

theorem isSome_readAfterWait
    : ((reclaiming Platform.sample).exec (fun _ _ => true) (rcuStart twoUids)
      readAfterWait).isSome := by
  decide +kernel

theorem held_freed
    : ∃ c : RcuCfg Platform.sample,
      (reclaiming Platform.sample).Reaches (rcuStart twoUids) c
        ∧ 1 ∈ c.shared.sections ∧ 2 ∈ (c.locals 1).held ∧ 2 ∉ c.shared.st.heap.live := by
  refine ⟨_, (System.run_exec_get isSome_readAfterWait).reaches, ?_, ?_, ?_⟩
  . decide +kernel
  . decide +kernel
  . decide +kernel

section Sequential

variable {i : Nat} {s : State K} {kind : Kind}

def State.nodes (s : State K) : Kind → List Ptr
  | .syscalls => s.sys.hackedSyscallHash.toList.map (·.addr)
  | .uids => s.uids.uidHash.toList.map (·.addr)
  | .progs => s.progs.progHash.toList.map (·.addr)

def State.emptied (s : State K) : Kind → State K
  | .syscalls => { s with sys := { s.sys with hackedSyscallHash := .empty } }
  | .uids => { s with uids := { s.uids with uidHash := .empty } }
  | .progs => { s with progs := { s.progs with progHash := .empty } }

theorem State.unlinkFirst_of_nil (h : s.nodes kind = []) : s.unlinkFirst kind = none := by
  cases kind <;> simp [unlinkFirst, List.map_eq_nil_iff.mp h]

theorem State.emptied_of_nil (h : s.nodes kind = []) : s.emptied kind = s := by
  cases kind <;> simp [emptied, ← HashTable.eq_empty (List.map_eq_nil_iff.mp h)]

theorem State.unlinkFirst_of_cons {p : Ptr} {ps : List Ptr} (hs : s.owned.Nodup)
    (h : s.nodes kind = p :: ps)
    : ∃ qs s', s.unlinkFirst kind = some (p, qs, s') ∧ s'.nodes kind = ps
        ∧ s'.emptied kind = s.emptied kind := by
  obtain ⟨hsys, huids, hprogs⟩ := nodup_tables hs
  cases kind with
  | syscalls =>
    obtain ⟨x, xs, hl, rfl, rfl⟩ := List.map_eq_cons_iff.mp h
    refine ⟨_, _, congrArg (Option.map _) (congrArg List.head? hl), ?_, rfl⟩
    rw [nodes, SyscallRegistry.hashDel, HashTable.toList_del hsys, hl, List.erase_cons_head]
  | uids =>
    obtain ⟨x, xs, hl, rfl, rfl⟩ := List.map_eq_cons_iff.mp h
    refine ⟨_, _, congrArg (Option.map _) (congrArg List.head? hl), ?_, rfl⟩
    rw [nodes, HashTable.toList_del huids, hl, List.erase_cons_head]
  | progs =>
    obtain ⟨x, xs, hl, rfl, rfl⟩ := List.map_eq_cons_iff.mp h
    refine ⟨_, _, congrArg (Option.map _) (congrArg List.head? hl), ?_, rfl⟩
    rw [nodes, HashTable.toList_del hprogs, hl, List.erase_cons_head]

def State.freed (s : State K) (ps : List Ptr) : State K :=
  { s with heap := ps.foldl Heap.kfree s.heap }

theorem State.nodes_freed (s : State K) (ps : List Ptr) (kind : Kind)
    : (s.freed ps).nodes kind = s.nodes kind := by
  cases kind <;> rfl

theorem State.emptied_freed (s : State K) (ps : List Ptr) (kind : Kind)
    : (s.freed ps).emptied kind = (s.emptied kind).freed ps := by
  cases kind <;> rfl

def Undisturbed (i : Nat) (s : Rcu K) (t : RcuThread K) (s' : Rcu K) (t' : RcuThread K) : Prop :=
  ∀ trace, ∃ trace', (reclaiming K).Solo i (fun _ => True) s t trace s' t' trace'

section Rules

variable {r r₁ r' : Rcu K} {t t' : RcuThread K} {ev : List (Reclamation.Event Ptr)}

theorem Undisturbed.refl : Undisturbed i r t r t :=
  fun trace => ⟨trace, .refl⟩

theorem Undisturbed.cleanup {pc pc₁ : CleanupPc} (h : pc.step i r = some (r₁, pc₁, ev))
    (hnext : Undisturbed i r₁ (.cleanup pc₁) r' t') : Undisturbed i r (.cleanup pc) r' t' := by
  intro trace
  obtain ⟨trace', hrest⟩ := hnext (ev ++ trace)
  refine ⟨trace', .head .go trivial ?_ hrest⟩
  simp only [reclaiming, RcuThread.step, h, Option.map_some]

theorem Undisturbed.remover {f f₁ : Remover K} (h : f.step r = some (r₁, f₁, ev))
    (hnext : Undisturbed i r₁ (.remover f₁) r' t') : Undisturbed i r (.remover f) r' t' := by
  intro trace
  obtain ⟨trace', hrest⟩ := hnext (ev ++ trace)
  refine ⟨trace', .head .go trivial ?_ hrest⟩
  simp only [reclaiming, RcuThread.step, h, Option.map_some]

end Rules

theorem remove_sequential (removal : Removal K) (s : State K)
    : Undisturbed i ⟨s, none, []⟩ (RcuTask.remove removal).thread ⟨(removal.apply s).2, none, []⟩
        (.remover ⟨removal, .done (removal.apply s).1⟩) := by
  rw [Removal.apply_eq]
  cases h : s.unlink removal with
  | error e =>
    refine .remover (by simp only [Remover.step, if_true, h]; rfl) ?_
    exact .refl
  | ok r =>
    refine .remover (by simp only [Remover.step, if_true, h]; rfl) ?_
    refine .remover rfl ?_
    -- no reader is there that `synchronize_rcu` would wait for
    have hfree : ∀ j ∈ ([] : List Nat), j ∉ ([] : List Nat) := by simp
    refine .remover (if_pos (e := none) hfree) ?_
    exact .refl

theorem State.owned_emptied (s : State K) (kind : Kind)
    : (s.emptied kind).owned.Sublist s.owned := by
  cases kind <;> simp [emptied, owned]

theorem Undisturbed.loop {r' : Rcu K} {t' : RcuThread K} {sections : List Nat} (hs : s.owned.Nodup)
    (hnext : Undisturbed i ⟨(s.emptied kind).freed (s.nodes kind), some i, sections⟩
      (.cleanup (.afterLoop kind)) r' t')
    : Undisturbed i ⟨s, some i, sections⟩ (.cleanup (.hashDel kind)) r' t' := by
  generalize hnodes : s.nodes kind = ps at hnext
  induction ps generalizing s with
  | nil =>
    rw [State.emptied_of_nil hnodes] at hnext
    exact .cleanup (by simp only [CleanupPc.step, State.unlinkFirst_of_nil hnodes]; rfl) hnext
  | cons p ps ih =>
    obtain ⟨qs, s', hfirst, hps, hempty⟩ := State.unlinkFirst_of_cons hs hnodes
    obtain ⟨-, hperm, -⟩ := State.unlinkFirst_some hs hfirst
    have hs' : (s'.freed [p]).owned.Nodup := (hperm.nodup_iff.mp hs).of_append_right
    have hnext' : Undisturbed i ⟨((s'.freed [p]).emptied kind).freed ps, some i, sections⟩
        (.cleanup (.afterLoop kind)) r' t' := by
      rw [State.emptied_freed, hempty]
      exact hnext
    have hrest := ih hs' (by rw [State.nodes_freed, hps]) hnext'
    refine .cleanup (by simp only [CleanupPc.step, hfirst]; rfl) ?_
    exact .cleanup rfl hrest

theorem cleanupRcu_eq (s : State K)
    : (cleanupRcu s).2
        = (((((({ s with mon := s.mon.switchOffMonitor.2 } : State K).emptied .syscalls).freed
          (s.nodes .syscalls)).emptied .uids).freed (s.nodes .uids)).emptied .progs).freed
          (s.nodes .progs) := by
  simp only [cleanupRcu, List.foldl_append]
  rfl

/-- A cleanup that no other step comes between is the function of the sequential model. -/
theorem cleanup_sequential (hs : s.owned.Nodup)
    : Undisturbed i ⟨s, none, []⟩ RcuTask.cleanup.thread ⟨(cleanupRcu s).2, none, []⟩
        (.cleanup .done) := by
  have hfree : ∀ j ∈ ([] : List Nat), j ∉ ([] : List Nat) := by simp
  have hsys : (s.emptied .syscalls).owned.Nodup := hs.sublist (s.owned_emptied _)
  have huids : ((s.emptied .syscalls).emptied .uids).owned.Nodup :=
    hsys.sublist (State.owned_emptied _ _)
  rw [cleanupRcu_eq]
  refine .cleanup rfl ?_
  refine .cleanup rfl ?_
  refine .cleanup (if_pos (e := none) hfree) ?_
  refine .cleanup rfl ?_
  refine .loop hs ?_
  refine .loop hsys ?_
  refine .loop huids ?_
  refine .cleanup rfl ?_
  exact .refl

end Sequential

end Throttling

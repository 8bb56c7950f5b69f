import SyscallThrottling.Lib.Custody
import SyscallThrottling.Lemmas.Balance

/-!
This module contains who is responsible for the objects of the module while registrations, removals,
readers and the cleanup overlap: an object that a removal has unlinked is freed by nobody else. The
objects are the nodes and the statistics. A registration is one step, its allocations included, and
the answers that queries allocate are not counted.
-/

namespace Throttling

open Interleaving Heap

variable {K : Platform}

/-- The objects that a thread has unlinked and is about to free. -/
def RcuThread.pending : RcuThread K → List Ptr
  | .remover ⟨_, .synchronize ps⟩ => ps
  | .remover ⟨_, .free ps _⟩ => ps
  | .cleanup (.kfree _ entry) => [entry]
  | _ => []

def RcuThread.isCleanup : RcuThread K → Bool
  | .cleanup _ => true
  | _ => false

theorem Heap.mem_foldl_kfree_iff {h : Heap} (hwf : h.WellFormed) (ps : List Ptr) (p : Ptr)
    : p ∈ (ps.foldl Heap.kfree h).live ↔ p ∈ h.live ∧ p ∉ ps := by
  induction ps generalizing h with
  | nil => simp
  | cons q ps ih =>
    rw [List.foldl_cons, ih (hwf.kfree q), Heap.kfree, hwf.nodup.mem_erase_iff, List.mem_cons]
    constructor
    . rintro ⟨⟨hne, hlive⟩, hps⟩
      exact ⟨hlive, fun h => h.elim hne hps⟩
    . rintro ⟨hlive, hnot⟩
      exact ⟨⟨fun h => hnot (.inl h), hlive⟩, fun h => hnot (.inr h)⟩

inductive RcuThread.Moves (t t' : RcuThread K) (s s' : State K) : Prop where
  | keeps (howned : s'.owned = s.owned) (hheap : s'.heap = s.heap)
    (hpending : t'.pending = t.pending)
  | takes (lost : List Ptr) (hheap : s'.heap = s.heap) (hpending : t.pending = [])
    (howned : s.owned.Perm (t'.pending ++ lost ++ s'.owned))
    (hlost : lost = [] ∨ t.isCleanup = true)
  | frees (howned : s'.owned = s.owned) (hheap : s'.heap = t.pending.foldl Heap.kfree s.heap)
    (hpending : t'.pending = [])

section Steps

variable {i : Nat} {s s' : Rcu K} {ev : List (Reclamation.Event Ptr)}

theorem Reader.moves {r r' : Reader K} (h : r.step i s = some (s', r', ev))
    : (RcuThread.reader r).Moves (.reader r') s.st s'.st := by
  have hst : s'.st = s.st := by
    unfold Reader.step at h
    dsimp only at h
    repeat' split at h
    all_goals cases h
    all_goals rfl
  exact .keeps (by rw [hst]) (by rw [hst]) rfl

theorem Remover.moves {f f' : Remover K} (hs : s.st.owned.Nodup) (h : f.step s = some (s', f', ev))
    : (RcuThread.remover f).Moves (.remover f') s.st s'.st := by
  obtain ⟨removal, pc⟩ := f
  cases pc <;> dsimp only [Remover.step] at h
  case unlink =>
    split at h
    . split at h
      . cases h
        exact .keeps rfl rfl rfl
      . next ps st hunlink =>
        cases h
        obtain ⟨hheap, howned⟩ := State.unlink_ok hs hunlink
        refine .takes [] hheap rfl ?_ (.inl rfl)
        rw [List.append_nil]
        exact howned
    . cases h
  case synchronize ps =>
    cases h
    exact .keeps rfl rfl rfl
  case free ps waitFor =>
    split at h <;> cases h
    exact .frees rfl rfl rfl
  case done => cases h

theorem CleanupPc.moves {pc pc' : CleanupPc} (hs : s.st.owned.Nodup)
    (h : pc.step i s = some (s', pc', ev))
    : (RcuThread.cleanup pc : RcuThread K).Moves (.cleanup pc') s.st s'.st := by
  cases pc <;> dsimp only [CleanupPc.step] at h
  case hashDel kind =>
    split at h
    . next entry ps st hfirst =>
      cases h
      obtain ⟨hheap, howned, hmem⟩ := State.unlinkFirst_some hs hfirst
      -- the cleanup goes on with the node, and forgets what the node refers to
      refine .takes (ps.erase entry) hheap rfl ?_ (.inr rfl)
      exact howned.trans ((List.perm_cons_erase hmem).append_right _)
    . cases h
      cases kind <;> exact .keeps rfl rfl rfl
  case kfree kind entry =>
    cases h
    exact .frees rfl rfl rfl
  case wait | lock =>
    split at h <;> cases h
    exact .keeps rfl rfl rfl
  case done => cases h
  all_goals
    cases h
    exact .keeps rfl rfl rfl

theorem RcuThread.moves {t t' : RcuThread K} {ch : Choice (RcuTask K)} (hs : s.st.owned.Nodup)
    (h : t.step i ch s = some (s', t', ev)) : t.Moves t' s.st s'.st := by
  cases t with
  | idle =>
    cases ch <;> cases h
    next task => cases task <;> exact .keeps rfl rfl rfl
  | reader r =>
    obtain ⟨⟨_, r', _⟩, hstep, heq⟩ := Option.map_eq_some_iff.mp h
    cases heq
    exact Reader.moves hstep
  | remover f =>
    obtain ⟨⟨_, f', _⟩, hstep, heq⟩ := Option.map_eq_some_iff.mp h
    cases heq
    exact Remover.moves hs hstep
  | cleanup pc =>
    obtain ⟨⟨_, pc', _⟩, hstep, heq⟩ := Option.map_eq_some_iff.mp h
    cases heq
    exact CleanupPc.moves hs hstep

theorem RcuThread.isCleanup_step {t t' : RcuThread K} {ch : Choice (RcuTask K)}
    (h : t.step i ch s = some (s', t', ev)) (ht : t.isCleanup = true) : t'.isCleanup = true := by
  cases t with
  | cleanup pc =>
    obtain ⟨_, _, heq⟩ := Option.map_eq_some_iff.mp h
    cases heq
    rfl
  | _ => cases ht

end Steps

/-- `lost` are the objects that a cleanup has left behind. -/
structure Custodians (c : RcuCfg K) (lost : List Ptr) : Prop where
  heap : c.shared.st.heap.WellFormed
  custody : Custody c.shared.st.owned lost (fun i => (c.locals i).pending) c.shared.st.heap.live
  cleanup : lost = [] ∨ ∃ i, (c.locals i).isCleanup = true

namespace Custodians

variable {c c' : RcuCfg K} {lost : List Ptr}

theorem initial (T : SyscallTable K) (stats : Ptr → SyscallStats) (now : Nat)
    : Custodians (rcuStart (State.loaded K T stats now)) [] where
  heap := (Account.loaded T stats now).heap
  custody := by
    apply Custody.nil
    . simp [rcuStart, State.loaded, State.initial, State.owned]
    . simp [rcuStart, State.loaded, State.initial, State.owned]
  cleanup := .inl rfl

theorem gains (h : Custodians c lost) {st : State K} {ps : List Ptr} (hg : Gains c.shared.st st ps)
    : Custodians { c with shared := c.shared.setState st } lost where
  heap := h.heap.extends hg.heap
  custody := by
    have hfresh : ∀ p ∈ ps, p ∉ c.shared.st.heap.live := fun p hp hlive =>
      not_lt_of_ge (hg.heap.fresh p hp).1 (h.heap.fresh p hlive)
    have := h.custody.link hg.heap.nodup hfresh hg.owned
    rw [← hg.heap.live] at this
    exact this
  cleanup := h.cleanup

theorem nodup (h : Custodians c lost) : c.shared.st.owned.Nodup :=
  (List.nodup_append'.mp h.custody.nodup).1

theorem pending_update (c : RcuCfg K) (i : Nat) (t : RcuThread K)
    : (fun j => (Function.update c.locals i t j).pending)
        = Function.update (fun j => (c.locals j).pending) i t.pending := by
  funext j
  rw [Function.update_apply, Function.update_apply]
  split <;> rfl

theorem moves (h : Custodians c lost) {i : Nat} {s : Rcu K} {t : RcuThread K}
    (hm : (c.locals i).Moves t c.shared.st s.st) (ev : List (Reclamation.Event Ptr))
    (hcleanup : (c.locals i).isCleanup = true → t.isCleanup = true)
    : ∃ lost', Custodians ⟨s, Function.update c.locals i t, ev ++ c.trace⟩ lost' := by
  have hstarted : (∃ j, (c.locals j).isCleanup = true)
      → ∃ j, (Function.update c.locals i t j).isCleanup = true :=
    fun h => exists_update (P := (RcuThread.isCleanup · = true)) h rfl hcleanup
  cases hm with
  | keeps howned hheap hpending =>
    refine ⟨lost, hheap ▸ h.heap, ?_, h.cleanup.imp_right hstarted⟩
    dsimp only
    rw [pending_update, hpending, Function.update_eq_self, howned, hheap]
    exact h.custody
  | takes rest hheap hpending howned hlost =>
    refine ⟨rest ++ lost, hheap ▸ h.heap, ?_, ?_⟩
    . dsimp only
      rw [pending_update, hheap]
      exact h.custody.take hpending howned
    . rcases hlost with rfl | hpc
      . exact h.cleanup.imp_right hstarted
      . exact .inr (hstarted ⟨i, hpc⟩)
  | frees howned hheap hpending =>
    refine ⟨lost, hheap ▸ h.heap.foldl_kfree _, ?_, h.cleanup.imp_right hstarted⟩
    dsimp only
    rw [pending_update, hpending, howned, hheap]
    exact h.custody.release i (Heap.mem_foldl_kfree_iff h.heap _)

theorem step (h : Custodians c lost) {l : RcuLbl K} (hs : (reclaiming K).step c l = some c')
    : ∃ lost', Custodians c' lost' := by
  cases l with
  | env r =>
    obtain ⟨s, ev, heq, rfl⟩ := System.step_env hs
    dsimp only [reclaiming] at heq
    split at heq <;> cases heq
    obtain ⟨ps, hg⟩ := r.gains c.shared.st
    exact ⟨lost, h.gains hg⟩
  | run i ch =>
    obtain ⟨s, t, ev, heq, rfl⟩ := System.step_run hs
    exact h.moves (RcuThread.moves h.nodup heq) ev (RcuThread.isCleanup_step heq)

end Custodians

/--
What a removal is about to free is live, is linked nowhere, and is freed by no other thread: nothing
is freed twice. Until a cleanup starts no node and no statistics are lost either, where no
registration is under way.
-/
theorem freed_once {T : SyscallTable K} {stats : Ptr → SyscallStats} {now : Nat} {c : RcuCfg K}
    (h : (reclaiming K).Reaches (rcuStart (State.loaded K T stats now)) c)
    : (∀ i, (c.locals i).pending.Nodup ∧ ∀ p ∈ (c.locals i).pending,
        p ∈ c.shared.st.heap.live ∧ p ∉ c.shared.st.owned
          ∧ ∀ j, i ≠ j → p ∉ (c.locals j).pending)
      ∧ ((∀ i, (c.locals i).isCleanup = false) → ∀ p, p ∈ c.shared.st.heap.live
        ↔ p ∈ c.shared.st.owned ∨ ∃ i, p ∈ (c.locals i).pending) := by
  have hinv : ∃ lost, Custodians c lost := by
    apply h.invariant (I := fun c => ∃ lost, Custodians c lost) ⟨[], .initial T stats now⟩
    rintro c l c' ⟨_, hc⟩ _ hs
    exact hc.step hs
  obtain ⟨lost, hc⟩ := hinv
  constructor
  . intro i
    refine ⟨hc.custody.held_nodup i, fun p hp => ⟨hc.custody.held_live hp, ?_, ?_⟩⟩
    . exact hc.custody.not_linked hp
    . exact fun j hij => hc.custody.one_holder i j hij p hp
  . intro hnone p
    have hlost : lost = [] := by
      refine hc.cleanup.resolve_right ?_
      rintro ⟨i, hi⟩
      rw [hnone i] at hi
      cases hi
    rw [hc.custody.live_iff, hlost, List.append_nil]

/-- Two removals of the user 1000 and one of the user 1001. -/
def removalsOverlap : List (RcuLbl Platform.sample) :=
  [.env (.uid Env.sample 1000), .env (.uid Env.sample 1001),
    .run 0 (.start (.remove (.uid 1000))), .run 1 (.start (.remove (.uid 1000))),
    .run 2 (.start (.remove (.uid 1001))),
    .run 2 .go, .run 0 .go, .run 1 .go, .run 0 .go]

def byThree (_ : RcuCfg Platform.sample) : RcuLbl Platform.sample → Bool
  | .env _ => true
  | .run i _ => i < 3

theorem isSome_removalsOverlap
    : ((reclaiming Platform.sample).exec byThree
      (rcuStart (State.loaded Platform.sample SyscallTable.sample (fun _ => .zero) 0))
      removalsOverlap).isSome := by
  decide +kernel

theorem freed_once_overlap
    : let c := ((reclaiming Platform.sample).exec byThree
        (rcuStart (State.loaded Platform.sample SyscallTable.sample (fun _ => .zero) 0))
        removalsOverlap).get isSome_removalsOverlap
      (c.locals 0).pending = [1] ∧ (∀ j, 0 ≠ j → 1 ∉ (c.locals j).pending)
        ∧ ∀ p, p ∈ c.shared.st.heap.live
          ↔ p ∈ c.shared.st.owned ∨ ∃ i, p ∈ (c.locals i).pending := by
  intro c
  have hrun := System.run_exec_get isSome_removalsOverlap
  have hpending : (c.locals 0).pending = [1] := by decide +kernel
  obtain ⟨honce, hall⟩ := freed_once hrun.reaches
  refine ⟨hpending, ?_, hall ?_⟩
  . exact ((honce 0).2 1 (by rw [hpending]; simp)).2.2
  . intro i
    by_cases hi : i < 3
    . have hkind : ∀ i < 3, (c.locals i).isCleanup = false := by decide +kernel
      exact hkind i hi
    . have hidle : c.locals i = .idle := hrun.locals fun _ ch h => hi (of_decide_eq_true h)
      rw [hidle]
      rfl

end Throttling

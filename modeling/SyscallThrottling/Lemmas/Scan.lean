import SyscallThrottling.Impl.Scan
import SyscallThrottling.Lemmas.Listing
import SyscallThrottling.Lib.SlotScan

/-!
This module contains what a listing returns that runs while entities of its kind are registered and
deregistered.
-/

namespace Throttling

open Interleaving

variable {K : Platform}

section Loops

variable {α β : Type} {p : α → Bool} {f : α → β} {inMax : Int} {copied : Nat} {xs : List α}

theorem copyLoop_of_not_breaks (h : loopBreaks p inMax copied xs = false)
    : copyLoop p f inMax copied xs = (xs.filter p).map f := by
  induction xs generalizing copied with
  | nil => rfl
  | cons x xs ih =>
    unfold loopBreaks at h
    unfold copyLoop
    split at h
    . simp at h
    . next hle =>
      rw [if_neg hle]
      split at h
      . next hp => rw [if_pos hp, List.filter_cons_of_pos hp, List.map_cons, ih h]
      . next hp => rw [if_neg hp, List.filter_cons_of_neg hp, ih h]

end Loops

def Entity.slot (K : Platform) : Entity → Nat
  | .syscall n => n.toNat
  | .uid u => K.hashMin u
  | .prog name => K.hashMin (K.jhash name)

namespace State

def slot (s : State K) : (kind : Kind) → Fin (kind.slots K) → List Entity
  | .syscalls, i =>
    ([i].filter fun i : Fin K.nrSyscalls => s.sys.syscallArray i ≠ 0).map
      fun i : Fin K.nrSyscalls => .syscall (i : Nat)
  | .uids, b => (s.uids.uidHash.bucket b).map fun x => .uid x.uid
  | .progs, b => (s.progs.progHash.bucket b).map fun x => .prog x.name.str

namespace Invariant

variable {T : SyscallTable K} {s : State K}

theorem nodup_slot (h : s.Invariant T) (kind : Kind) (b : Fin (kind.slots K))
    : (s.slot kind b).Nodup := by
  cases kind with
  | syscalls =>
    apply List.Nodup.map
    . intro i j hij
      simpa [Fin.ext_iff] using hij
    . exact (List.nodup_singleton _).filter _
  | uids =>
    obtain ⟨S, hS⟩ := h.uids
    have hmap := (hS.wf.nodup b).map (f := Entity.uid) fun _ _ h => by simpa using h
    simpa [slot, Function.comp_def] using hmap
  | progs =>
    obtain ⟨S, hS, _⟩ := h.progs
    have hmap := (hS.wf.nodup b).map (f := Entity.prog) fun _ _ h => by simpa using h
    simpa [slot, Function.comp_def, RegisteredProg.key] using hmap

theorem mem_slot (h : s.Invariant T) (kind : Kind) (b : Fin (kind.slots K)) (x : Entity)
    : x ∈ s.slot kind b ↔ x ∈ s.registered kind ∧ x.slot K = b := by
  rw [← h.mem_entities]
  cases kind with
  | syscalls =>
    simp only [slot, entities, List.mem_map, List.mem_filter, List.mem_singleton, List.mem_finRange]
    constructor
    . rintro ⟨i, ⟨rfl, hflag⟩, rfl⟩
      exact ⟨⟨i, ⟨trivial, hflag⟩, rfl⟩, by simp [Entity.slot]⟩
    . rintro ⟨⟨i, ⟨_, hflag⟩, rfl⟩, hslot⟩
      exact ⟨i, ⟨Fin.ext (by simpa [Entity.slot] using hslot), hflag⟩, rfl⟩
  | uids =>
    obtain ⟨S, hS⟩ := h.uids
    simp only [slot, entities, List.mem_map]
    constructor
    . rintro ⟨node, hmem, rfl⟩
      exact ⟨⟨node, HashTable.mem_toList.mpr ⟨b, hmem⟩, rfl⟩,
        congrArg Fin.val (hS.wf.placed b node hmem)⟩
    . rintro ⟨⟨node, hmem, rfl⟩, hslot⟩
      refine ⟨node, ?_, rfl⟩
      rw [← (Fin.ext hslot : K.hashMin node.uid = b)]
      exact hS.wf.mem_bucket hmem
  | progs =>
    obtain ⟨S, hS, _⟩ := h.progs
    simp only [slot, entities, List.mem_map]
    constructor
    . rintro ⟨node, hmem, rfl⟩
      exact ⟨⟨node, HashTable.mem_toList.mpr ⟨b, hmem⟩, rfl⟩,
        congrArg Fin.val (hS.wf.placed b node hmem)⟩
    . rintro ⟨⟨node, hmem, rfl⟩, hslot⟩
      refine ⟨node, ?_, rfl⟩
      rw [← (Fin.ext hslot : K.hashMin (K.jhash node.name.str) = b)]
      exact hS.wf.mem_bucket hmem

variable {env : Env} {inMax : Int} {copied : Nat} {kind : Kind} {b : Fin (kind.slots K)}

theorem visitSlot_of_not_breaks (h : s.Invariant T) (hb : s.breaksIn inMax copied kind b = false)
    : s.visitSlot env inMax copied kind b = s.slot kind b := by
  cases kind with
  | syscalls => exact copyLoop_of_not_breaks hb
  | uids =>
    rw [visitSlot, copyLoop_of_not_breaks hb, List.filter_true]
    rfl
  | progs =>
    rw [visitSlot, copyLoop_of_not_breaks hb, List.filter_true]
    have hstr := map_str_copyNames env.junk.names copied
      ((s.progs.progHash.bucket b).map fun entry => entry.name)
    have hmap := congrArg (List.map Entity.prog) hstr
    simp only [List.map_map, Function.comp_def] at hmap
    exact hmap.trans (List.map_congr_left fun node hmem => by
      rw [h.progKey_name (HashTable.mem_toList.mpr ⟨b, hmem⟩)])

end Invariant

theorem slot_lt {s : State K} {kind : Kind} {x : Entity} (hx : x ∈ s.registered kind)
    : x.slot K < kind.slots K := by
  cases kind with
  | syscalls =>
    obtain ⟨n, _, rfl⟩ := hx
    exact n.2
  | uids =>
    obtain ⟨uid, _, rfl⟩ := hx
    exact (K.hashMin uid).2
  | progs =>
    obtain ⟨exe, _, rfl⟩ := hx
    exact (K.hashMin _).2

theorem visitSlot_of_empty {s : State K} {env : Env} {inMax : Int} {copied : Nat} {kind : Kind}
    {b : Fin (kind.slots K)} (h : s.slot kind b = [])
    : s.visitSlot env inMax copied kind b = [] := by
  cases kind with
  | syscalls =>
    rw [visitSlot, copyLoop_eq_take, List.map_eq_nil_iff.mp h]
    simp
  | uids =>
    rw [visitSlot, List.map_eq_nil_iff.mp h]
    rfl
  | progs =>
    rw [visitSlot, List.map_eq_nil_iff.mp h]
    rfl

end State

/-- The scan is not broken off while the slot it stands at, or one after it, holds an entity. -/
def NothingAhead (c : ScanCfg K) : ScanLbl → Prop
  | .env _ => True
  | .run i _ => ∀ tempBuf inMax, ∀ b b' : Fin ((c.locals i).kind.slots K),
    (c.locals i).pc = .visit tempBuf inMax b
      → c.shared.breaksIn inMax (c.locals i).copied.length (c.locals i).kind b = true
      → b ≤ b' → c.shared.slot (c.locals i).kind b' = []

def history (kind : Kind) (trace : List (State K)) : List (Set Entity) :=
  trace.map fun s => s.registered kind

def Scan.Fact (kind : Kind) (trace : List (State K)) (f : Scan) : Prop :=
  f.kind = kind
    ∧ match f.pc with
      | .counter => f.copied = []
      | .alloc _ => f.copied = []
      | .visit _ _ k => SlotScan.Covers (Entity.slot K) (history kind trace) k f.copied
      | .done (.ok _) => SlotScan.Snapshot (history kind trace) f.copied
      | .done (.error _) => True

namespace Scan

variable {T : SyscallTable K} {kind : Kind} {trace : List (State K)} {f f' : Scan} {s s' : State K}

theorem Fact.grow (h : f.Fact kind trace) (s : State K) : f.Fact kind (s :: trace) := by
  obtain ⟨hkind, h⟩ := h
  refine ⟨hkind, ?_⟩
  split at h
  . exact h
  . exact h
  . exact h.grow _
  . exact h.grow _
  . trivial

theorem Fact.step (hinv : s.Invariant T) (hmem : s.registered kind ∈ history kind trace)
    (h : f.Fact kind trace)
    (hahead : ∀ tempBuf inMax, ∀ b b' : Fin (f.kind.slots K), f.pc = .visit tempBuf inMax b
      → s.breaksIn inMax f.copied.length f.kind b = true → b ≤ b' → s.slot f.kind b' = [])
    (hs : f.step s = some (s', f')) : SameButHeap s s' ∧ f'.Fact kind trace := by
  obtain ⟨rfl, h⟩ := h
  unfold Scan.step at hs
  split at hs
  . next hpc =>
    rw [hpc] at h
    cases hs
    exact ⟨.refl s, rfl, h⟩
  . next inMax hpc =>
    rw [hpc] at h
    dsimp only at h hs
    split at hs <;> cases hs
    . exact ⟨⟨_, rfl⟩, rfl, trivial⟩
    . refine ⟨⟨_, rfl⟩, rfl, ?_⟩
      dsimp only [goto]
      rw [h]
      exact .nil
  . next tempBuf inMax k hpc =>
    rw [hpc] at h
    dsimp only at h hs
    split at hs
    . next hk =>
      have hslot : ∀ x, x ∈ s.slot f.kind ⟨k, hk⟩ ↔ x ∈ s.registered f.kind ∧ x.slot K = k :=
        hinv.mem_slot f.kind ⟨k, hk⟩
      split at hs
      . next hb =>
        cases hs
        -- the guard of the run: nothing is left where the scan breaks off
        have hempty := fun b' => hahead tempBuf inMax ⟨k, hk⟩ b' hpc hb
        refine ⟨.refl s, rfl, ?_⟩
        dsimp only [goto]
        rw [State.visitSlot_of_empty (hempty _ le_rfl), List.append_nil]
        refine h.snapshot hmem fun x hx => ?_
        by_contra hle
        have hx' := (hinv.mem_slot f.kind ⟨_, State.slot_lt hx⟩ x).mpr ⟨hx, rfl⟩
        rw [hempty _ (Nat.le_of_not_lt hle)] at hx'
        simp at hx'
      . next hb =>
        cases hs
        refine ⟨.refl s, rfl, ?_⟩
        dsimp only [goto]
        rw [hinv.visitSlot_of_not_breaks (by simpa using hb)]
        exact h.visit hmem (hinv.nodup_slot _ _) hslot
    . next hk =>
      cases hs
      exact ⟨.refl s, rfl, h.snapshot hmem fun x hx => (State.slot_lt hx).trans_le (by omega)⟩
  . cases hs

end Scan

def scanOutline (T : SyscallTable K) (kind : Kind) : System.Outline (scanning K) NothingAhead where
  shared s trace := s.Invariant T ∧ s.registered kind ∈ history kind trace
  thread _ _ trace f := f.Fact kind trace
  env_ok := by
    intro c r s ev _ hsh heq
    simp only [scanning, Option.some.injEq, Prod.mk.injEq] at heq
    obtain ⟨rfl, rfl⟩ := heq
    refine ⟨⟨hsh.1.effect (throttlingIoctl_effect _ _), List.mem_cons_self⟩, ?_⟩
    intro j f hf
    exact hf.grow _
  thread_ok := by
    intro c i ch s f ev hg hsh hf heq
    obtain ⟨⟨s', f'⟩, hstep, h⟩ := Option.map_eq_some_iff.mp heq
    cases h
    obtain ⟨⟨heap, rfl⟩, hf'⟩ := hf.step hsh.1 hsh.2 hg hstep
    refine ⟨⟨⟨hsh.1.sys, hsh.1.uids, hsh.1.progs⟩, ?_⟩, hf', fun j t _ ht => ht⟩
    cases kind <;> exact hsh.2

section Snapshot

variable {c : ScanCfg K} {i : Nat} {tempBuf : Ptr}

/--
A listing returns every entity that is registered during the whole call, each at most once, and none
that is not registered at any instant of it, as long as the scan is not broken off too early.
-/
theorem listing_is_snapshot (T : SyscallTable K) (stats : Ptr → SyscallStats) (now : Nat)
    (ops : List Op) (kind : Kind) (env : Nat → Env) (max : Nat → Int)
    (hrun : (scanning K).Run NothingAhead
      (scanBegun (Op.run (State.loaded K T stats now) ops) kind env max) c)
    (hdone : (c.locals i).pc = .done (.ok tempBuf))
    : (∀ x ∈ (c.locals i).copied, ∃ s ∈ c.trace, x ∈ s.registered kind)
      ∧ (c.locals i).copied.Nodup
      ∧ ∀ x, (∀ s ∈ c.trace, x ∈ s.registered kind) → x ∈ (c.locals i).copied := by
  have hinv := Op.invariant_run (State.Invariant.loaded T stats now) ops
  have hholds := (scanOutline T kind).holds_of_run hrun
    ⟨⟨hinv, List.mem_cons_self⟩, fun i => ⟨rfl, rfl⟩⟩
  obtain ⟨_, hfact⟩ := hholds.2 i
  rw [hdone] at hfact
  have hfact : SlotScan.Snapshot (history kind c.trace) (c.locals i).copied := hfact
  refine ⟨?_, hfact.nodup, ?_⟩
  . intro x hx
    obtain ⟨S, hS, hxS⟩ := hfact.sound x hx
    obtain ⟨s, hs, rfl⟩ := List.mem_map.mp hS
    exact ⟨s, hs, hxS⟩
  . intro x hx
    refine hfact.complete x fun S hS => ?_
    obtain ⟨s, hs, rfl⟩ := List.mem_map.mp hS
    exact hx s hs

end Snapshot

def scanSample (ops : List Op) : ScanCfg Platform.sample :=
  scanBegun (Op.run (State.loaded Platform.sample SyscallTable.sample (fun _ => .zero) 0) ops) .syscalls
    (fun _ => Env.sample) (fun _ => Platform.sample.nrSyscalls)

def registerSyscallRequest (n : Int) : Request where
  env := Env.sample
  euid := 0
  cmd := .registerSyscall n

def nothingAhead (c : ScanCfg K) : ScanLbl → Bool
  | .env _ => true
  | .run i _ =>
    match (c.locals i).pc with
    | .visit _ inMax k =>
      if h : k < (c.locals i).kind.slots K then
        c.shared.breaksIn inMax (c.locals i).copied.length (c.locals i).kind ⟨k, h⟩ →
          ∀ b' : Fin ((c.locals i).kind.slots K), k ≤ b' →
            (c.shared.slot (c.locals i).kind b').isEmpty
      else
        true
    | _ => true

theorem of_nothingAhead {c : ScanCfg K} {l : ScanLbl} (h : nothingAhead c l = true)
    : NothingAhead c l := by
  cases l with
  | env r => trivial
  | run i ch =>
    intro tempBuf inMax b b' hpc hbreaks hle
    unfold nothingAhead at h
    simp only [hpc, b.2, dite_true, decide_eq_true_eq] at h
    exact List.isEmpty_iff.mp (h hbreaks b' hle)

def scanRun (g : ScanCfg Platform.sample → ScanLbl → Bool) (ops : List Op) (ls : List ScanLbl)
    : Option (ScanCfg Platform.sample) :=
  (scanning Platform.sample).exec g (scanSample ops) ls

/-- The system call 0 is registered. The call breaks off at slot 1. -/
def oneRegistered : List ScanLbl :=
  List.replicate 4 (.run 0 ())

theorem isSome_oneRegistered
    : (scanRun nothingAhead [.ioctl Env.sample 0 (.registerSyscall 0)] oneRegistered).isSome := by
  decide +kernel

theorem listing_is_snapshot_oneRegistered
    : let c := (scanRun nothingAhead [.ioctl Env.sample 0 (.registerSyscall 0)] oneRegistered).get
        isSome_oneRegistered
      ∀ x, (∀ s ∈ c.trace, x ∈ s.registered .syscalls) → x ∈ (c.locals 0).copied := by
  intro c
  have hrun : (scanning Platform.sample).Run NothingAhead
      (scanSample [.ioctl Env.sample 0 (.registerSyscall 0)]) c :=
    (System.run_exec_get isSome_oneRegistered).mono fun _ _ => of_nothingAhead
  have hdone : (c.locals 0).pc = .done (.ok 3) := by
    decide +kernel
  exact (listing_is_snapshot SyscallTable.sample (fun _ => .zero) 0 _ .syscalls _ _ hrun hdone).2.2

/-- The system call 1 is registered, and 0 after the read of the counter. -/
def registeredBehindCounter : List ScanLbl :=
  List.replicate 2 (.run 0 ()) ++ .env (registerSyscallRequest 0) :: List.replicate 2 (.run 0 ())

theorem isSome_registeredBehindCounter
    : (scanRun (fun _ _ => true) [.ioctl Env.sample 0 (.registerSyscall 1)]
      registeredBehindCounter).isSome := by
  decide

theorem listing_misses_registered
    : ∃ (c : ScanCfg Platform.sample) (tempBuf : Ptr),
      (scanning Platform.sample).Reaches (scanSample [.ioctl Env.sample 0 (.registerSyscall 1)]) c
        ∧ (c.locals 0).pc = .done (.ok tempBuf) ∧ (c.locals 0).max = Platform.sample.nrSyscalls
        ∧ (∀ s ∈ c.trace, Entity.syscall 1 ∈ s.registered .syscalls)
        ∧ Entity.syscall 1 ∉ (c.locals 0).copied := by
  refine ⟨_, _, (System.run_exec_get isSome_registeredBehindCounter).reaches, rfl, rfl, ?_, ?_⟩
  . have h : ∀ s ∈ ((scanRun (fun _ _ => true) [.ioctl Env.sample 0 (.registerSyscall 1)]
        registeredBehindCounter).get isSome_registeredBehindCounter).trace,
        checkSyscall 1 s.sys = 1 := by
      decide +kernel
    intro s hs
    exact ⟨⟨1, by decide⟩, h s hs, rfl⟩
  . decide

section Sequential

theorem copyLoop_append {α β : Type} (p : α → Bool) (f : α → β) (inMax : Int) (copied : Nat)
    (xs ys : List α)
    : copyLoop p f inMax copied (xs ++ ys)
        = copyLoop p f inMax copied xs ++ if loopBreaks p inMax copied xs then [] else
          copyLoop p f inMax (copied + (copyLoop p f inMax copied xs).length) ys := by
  induction xs generalizing copied with
  | nil => simp [copyLoop, loopBreaks]
  | cons x xs ih =>
    rw [List.cons_append, copyLoop, copyLoop, loopBreaks]
    by_cases hle : inMax ≤ copied
    . simp only [hle, if_true, List.append_nil]
    . simp only [hle, if_false]
      cases p x with
      | false => simp only [ih, Bool.false_eq_true, if_false]
      | true =>
        simp only [ih, if_true, List.cons_append, List.length_cons, Nat.add_assoc, Nat.add_comm 1]

theorem copyNames_append (names : Nat → Comm) (i : Nat) (l l' : List Comm)
    : copyNames names i (l ++ l') = copyNames names i l ++ copyNames names (i + l.length) l' := by
  induction l generalizing i with
  | nil => rfl
  | cons name l ih =>
    rw [List.cons_append, copyNames, copyNames, ih, List.cons_append, List.length_cons,
      Nat.add_assoc, Nat.add_comm 1]

theorem drop_finRange {n k : Nat} (h : k < n)
    : (List.finRange n).drop k = ⟨k, h⟩ :: (List.finRange n).drop (k + 1) := by
  rw [List.drop_eq_getElem_cons (by simpa using h), List.getElem_finRange]
  rfl

def State.rest (s : State K) (env : Env) (inMax : Int) (copied k : Nat) : Kind → List Entity
  | .syscalls =>
    copyLoop (fun i : Fin K.nrSyscalls => s.sys.syscallArray i ≠ 0) (fun i => .syscall (i : Nat))
      inMax copied ((List.finRange K.nrSyscalls).drop k)
  | .uids =>
    copyLoop (fun _ => true) (fun entry => .uid entry.uid) inMax copied
      (((List.finRange 256).drop k).flatMap s.uids.uidHash.bucket)
  | .progs =>
    (copyNames env.junk.names copied
      (copyLoop (fun _ => true) (fun entry => entry.name) inMax copied
        (((List.finRange 256).drop k).flatMap s.progs.progHash.bucket))).map fun name =>
          .prog name.str

theorem State.rest_eq (s : State K) (env : Env) (inMax : Int) (copied : Nat) {k : Nat} {kind : Kind}
    (h : k < kind.slots K)
    : s.rest env inMax copied k kind
        = s.visitSlot env inMax copied kind ⟨k, h⟩
          ++ if s.breaksIn inMax copied kind ⟨k, h⟩ then [] else
            s.rest env inMax (copied + (s.visitSlot env inMax copied kind ⟨k, h⟩).length) (k + 1)
              kind := by
  cases kind with
  | syscalls =>
    rw [rest, drop_finRange h, ← List.singleton_append, copyLoop_append]
    rfl
  | uids =>
    rw [rest, drop_finRange h, List.flatMap_cons, copyLoop_append]
    rfl
  | progs =>
    have hlen : (s.visitSlot env inMax copied .progs ⟨k, h⟩).length
        = (copyLoop (fun _ => true) (fun entry => entry.name) inMax copied
          (s.progs.progHash.bucket ⟨k, h⟩)).length := by
      rw [visitSlot, List.length_map, length_copyNames]
    rw [hlen, rest, rest, breaksIn, drop_finRange h, List.flatMap_cons, copyLoop_append,
      copyNames_append, List.map_append]
    congr 1
    split <;> rfl

theorem State.rest_of_le (s : State K) (env : Env) (inMax : Int)
    (copied : Nat) {k : Nat} {kind : Kind}
    (h : kind.slots K ≤ k) : s.rest env inMax copied k kind = [] := by
  cases kind with
  | syscalls =>
    rw [rest, List.drop_eq_nil_of_le (by simpa using h)]
    rfl
  | uids =>
    rw [rest, List.drop_eq_nil_of_le (by simpa using h)]
    rfl
  | progs =>
    rw [rest, List.drop_eq_nil_of_le (by simpa using h)]
    rfl

variable {i : Nat} {s : State K} {trace : List (State K)}

theorem visits_sequential {tempBuf : Ptr} {inMax : Int} {k : Nat} (f : Scan)
    (hpc : f.pc = .visit tempBuf inMax k)
    : (scanning K).Solo i (fun _ => True) s f trace s
        { f with
          copied := f.copied ++ s.rest f.env inMax f.copied.length k f.kind
          pc := .done (.ok tempBuf) } trace := by
  by_cases h : k < f.kind.slots K
  . rw [State.rest_eq s f.env inMax f.copied.length h]
    cases hbreaks : s.breaksIn inMax f.copied.length f.kind ⟨k, h⟩ with
    | true =>
      refine .head () trivial (by simp only [scanning, Scan.step, hpc, dif_pos h, hbreaks]; rfl) ?_
      rw [if_pos rfl, List.append_nil]
      exact .refl
    | false =>
      refine .head () trivial (by simp only [scanning, Scan.step, hpc, dif_pos h, hbreaks]; rfl) ?_
      have hnext := visits_sequential
        { f with
          copied := f.copied ++ s.visitSlot f.env inMax f.copied.length f.kind ⟨k, h⟩
          pc := .visit tempBuf inMax (k + 1) } rfl
      rw [List.length_append, List.append_assoc] at hnext
      exact hnext
  . rw [State.rest_of_le s f.env inMax f.copied.length (not_lt.mp h), List.append_nil]
    refine .head () trivial (by simp only [scanning, Scan.step, hpc, dif_neg h]; rfl) ?_
    exact .refl
termination_by f.kind.slots K - k

theorem map_copyLoop {α β γ : Type} (p : α → Bool) (f : α → β) (g : β → γ) (inMax : Int)
    (copied : Nat)
    (xs : List α) : (copyLoop p f inMax copied xs).map g = copyLoop p (g ∘ f) inMax copied xs := by
  rw [copyLoop_eq_take, copyLoop_eq_take, List.map_map]

def entitiesOf {α : Type} (write : List α → UserWrite) (r : Except Int (Ptr × List α) × State K)
    : Except Int (Ptr × List Entity) × State K :=
  (r.1.map fun x => (x.1, (write x.2).entities), r.2)

theorem entitiesOf_withBuffer {α : Type} (write : List α → UserWrite) (env : Env) (s : State K)
    (size : Nat) (l : List α)
    : entitiesOf write (withBuffer env s size l) = withBuffer env s size (write l).entities := by
  unfold withBuffer
  split <;> rfl

def Kind.getAll (env : Env) (max : Int) (s : State K)
    : Kind → Except Int (Ptr × List Entity) × State K
  | .syscalls => entitiesOf .syscalls (getAllSyscalls env max s)
  | .uids => entitiesOf .uids (getAllUids env max s)
  | .progs => entitiesOf .progs (getAllProgs env max s)

theorem Kind.getAll_eq (env : Env) (max : Int) (s : State K) (kind : Kind)
    : kind.getAll env max s
        = withBuffer env s (kind.bufferSize (kind.inMax s max))
            (s.rest env (kind.inMax s max) 0 0 kind) := by
  cases kind with
  | syscalls =>
    rw [getAll, getAllSyscalls_eq, entitiesOf_withBuffer, UserWrite.entities, map_copyLoop,
      State.rest, List.drop_zero]
    rfl
  | uids =>
    rw [getAll, getAllUids_eq, entitiesOf_withBuffer, UserWrite.entities, map_copyLoop, State.rest,
      List.drop_zero]
    rfl
  | progs =>
    rw [getAll, getAllProgs_eq, entitiesOf_withBuffer, UserWrite.entities, State.rest,
      List.drop_zero]
    rfl

def Scan.returned (kind : Kind) (env : Env) (max : Int) : Except Int (Ptr × List Entity) → Scan
  | .error e => { kind, env, max, copied := [], pc := .done (.error e) }
  | .ok (tempBuf, copied) => { kind, env, max, copied, pc := .done (.ok tempBuf) }

/-- A listing that no ioctl comes between is the function of the sequential model. -/
theorem scan_sequential (kind : Kind) (env : Env) (max : Int)
    : (scanning K).Solo i (fun _ => True) s (.begin kind env max) trace (kind.getAll env max s).2
        (.returned kind env max (kind.getAll env max s).1) trace := by
  rw [Kind.getAll_eq, withBuffer]
  refine .head () trivial rfl ?_
  generalize hsize : kind.bufferSize (kind.inMax s max) = size
  cases hk : s.heap.kmalloc (env.kmalloc 0 size) size with
  | mk tempBuf heap =>
    cases tempBuf with
    | none =>
      refine .head () trivial
        (by simp only [scanning, Scan.step, Scan.goto, Scan.begin, hsize, hk]; rfl) ?_
      exact .refl
    | some tempBuf =>
      refine .head () trivial
        (by simp only [scanning, Scan.step, Scan.goto, Scan.begin, hsize, hk]; rfl) ?_
      exact visits_sequential { kind, env, max, copied := [], pc := .visit tempBuf _ 0 } rfl

end Sequential

end Throttling

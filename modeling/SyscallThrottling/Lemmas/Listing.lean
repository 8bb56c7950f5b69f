import Mathlib.Data.Set.Card
import SyscallThrottling.Impl.Interface
import SyscallThrottling.Lemmas.Ioctl

/-!
This module contains what `IOCTL_GET_NUMBER` and the commands `IOCTL_GET_ALL_*` tell about the
registries.
-/

namespace Throttling

open SyscallRegistry

variable {K : Platform}

theorem copyLoop_eq_take {α β : Type} (p : α → Bool) (f : α → β) (inMax : Int) (copied : Nat)
    (xs : List α)
    : copyLoop p f inMax copied xs = ((xs.filter p).take (inMax - copied).toNat).map f := by
  induction xs generalizing copied with
  | nil => simp [copyLoop]
  | cons x xs ih =>
    rw [copyLoop]
    by_cases hle : inMax ≤ copied
    . have : (inMax - copied).toNat = 0 := by omega
      rw [if_pos hle, this, List.take_zero, List.map_nil]
    . rw [if_neg hle]
      by_cases hp : p x = true
      . have : (inMax - copied).toNat = (inMax - (copied + 1 : Nat)).toNat + 1 := by omega
        rw [if_pos hp, List.filter_cons_of_pos hp, this, List.take_succ_cons, List.map_cons, ih]
      . rw [if_neg hp, List.filter_cons_of_neg hp, ih]

theorem length_copyNames (names : Nat → Comm) (i : Nat) (l : List Comm)
    : (copyNames names i l).length = l.length := by
  induction l generalizing i with
  | nil => rfl
  | cons name l ih => rw [copyNames, List.length_cons, List.length_cons, ih]

theorem map_str_copyNames (names : Nat → Comm) (i : Nat) (l : List Comm)
    : (copyNames names i l).map Comm.str = l.map fun name => progKey name.toList := by
  induction l generalizing i with
  | nil => rfl
  | cons name l ih => rw [copyNames, List.map_cons, List.map_cons, ih, Comm.str_strscpy, progKey]

namespace State

def registered (s : State K) : Kind → Set Entity
  | .syscalls =>
    { x | ∃ n : Fin K.nrSyscalls, checkSyscall (n : Nat) s.sys = 1 ∧ .syscall (n : Nat) = x }
  | .uids => { x | ∃ uid, checkUid K uid s.uids = 1 ∧ .uid uid = x }
  | .progs => { x | ∃ exe, checkProgname K (taskComm exe) s.progs = 1 ∧ .prog (progKey exe) = x }

noncomputable def cardinality (s : State K) (kind : Kind) : Nat :=
  (s.registered kind).ncard

def entities (s : State K) : Kind → List Entity
  | .syscalls =>
    ((List.finRange K.nrSyscalls).filter fun i => s.sys.syscallArray i ≠ 0).map
      fun i : Fin K.nrSyscalls => .syscall (i : Nat)
  | .uids => s.uids.uidHash.toList.map fun x => .uid x.uid
  | .progs => s.progs.progHash.toList.map fun x => .prog x.name.str

namespace Invariant

variable {T : SyscallTable K} {s : State K}

theorem nodup_entities (h : s.Invariant T) (kind : Kind) : (s.entities kind).Nodup := by
  cases kind with
  | syscalls =>
    apply List.Nodup.map
    . intro i j hij
      simpa [Fin.ext_iff] using hij
    . exact (List.nodup_finRange _).filter _
  | uids =>
    obtain ⟨S, hS⟩ := h.uids
    have hmap := hS.wf.nodup_map_toList.map (f := Entity.uid) fun _ _ h => by simpa using h
    simpa [entities, Function.comp_def] using hmap
  | progs =>
    obtain ⟨S, hS, _⟩ := h.progs
    have hmap := hS.wf.nodup_map_toList.map (f := Entity.prog) fun _ _ h => by simpa using h
    simpa [entities, Function.comp_def, RegisteredProg.key] using hmap

theorem mem_entities (h : s.Invariant T) (kind : Kind) (x : Entity)
    : x ∈ s.entities kind ↔ x ∈ s.registered kind := by
  cases kind with
  | syscalls => simp [entities, registered, checkSyscall]
  | uids =>
    obtain ⟨S, hS⟩ := h.uids
    simp only [entities, registered, List.mem_map, Set.mem_ofPred_eq, hS.check, checkKey]
    constructor
    . rintro ⟨node, hmem, rfl⟩
      refine ⟨node.uid, if_pos ?_, rfl⟩
      rw [← hS.keys]
      exact HashTable.mem_keys.mpr ⟨node, hmem, rfl⟩
    . rintro ⟨uid, hin, rfl⟩
      have hin : uid ∈ S := by simpa using hin
      rw [← hS.keys] at hin
      obtain ⟨node, hmem, rfl⟩ := HashTable.mem_keys.mp hin
      exact ⟨node, hmem, rfl⟩
  | progs =>
    obtain ⟨S, hS, hshort⟩ := h.progs
    simp only [entities, registered, List.mem_map, Set.mem_ofPred_eq, hS.check, checkKey, taskComm,
      Comm.str_ofBytes_truncate]
    constructor
    . rintro ⟨node, hmem, rfl⟩
      have hin : node.key ∈ S := by
        rw [← hS.keys]
        exact HashTable.mem_keys.mpr ⟨node, hmem, rfl⟩
      have hkey : CString.truncate 15 node.key = node.key := hshort _ hin
      refine ⟨node.key, ?_, congrArg Entity.prog hkey⟩
      rw [hkey, if_pos hin]
    . rintro ⟨exe, hin, rfl⟩
      have hin : progKey exe ∈ S := by simpa [progKey] using hin
      rw [← hS.keys] at hin
      obtain ⟨node, hmem, hkey⟩ := HashTable.mem_keys.mp hin
      exact ⟨node, hmem, congrArg Entity.prog hkey⟩

theorem progKey_name (h : s.Invariant T) {node : RegisteredProg}
    (hmem : node ∈ s.progs.progHash.toList) : progKey node.name.toList = node.name.str := by
  obtain ⟨S, hS, hshort⟩ := h.progs
  have hkey := hshort node.key (by
    rw [← hS.keys]
    exact HashTable.mem_keys.mpr ⟨node, hmem, rfl⟩)
  rw [progKey, RegisteredProg.key, Comm.str, CString.truncate, CString.bytes_bytes] at hkey
  exact hkey

theorem cardinality_eq (h : s.Invariant T) (kind : Kind)
    : s.cardinality kind = (s.entities kind).length := by
  have hset : s.registered kind = ((s.entities kind).toFinset : Set Entity) := by
    ext x
    simp [h.mem_entities]
  rw [cardinality, hset, Set.ncard_coe_finset, List.toFinset_card_of_nodup (h.nodup_entities kind)]

theorem sysLen_eq (h : s.Invariant T) : s.sys.sysLen = s.cardinality .syscalls := by
  have hnum : s.sys.numbers
      = ((List.finRange K.nrSyscalls).filter fun i => s.sys.syscallArray i ≠ 0).toFinset := by
    ext n
    simp [← h.sys.not_mem_numbers_iff]
  rw [h.sys.len, h.cardinality_eq, entities, List.length_map, hnum,
    List.toFinset_card_of_nodup ((List.nodup_finRange _).filter _)]

theorem uidsLen_eq (h : s.Invariant T) : s.uids.uidsLen = s.cardinality .uids := by
  obtain ⟨S, hS⟩ := h.uids
  rw [hS.len, h.cardinality_eq, entities, List.length_map, hS.wf.length_toList, hS.keys]

theorem progNameLen_eq (h : s.Invariant T) : s.progs.progNameLen = s.cardinality .progs := by
  obtain ⟨S, hS, _⟩ := h.progs
  rw [hS.len, h.cardinality_eq, entities, List.length_map, hS.wf.length_toList, hS.keys]

theorem cardinality_syscalls_le (h : s.Invariant T)
    : s.cardinality .syscalls ≤ K.nrSyscalls := by
  rw [h.cardinality_eq, entities, List.length_map]
  exact (List.length_filter_le _ _).trans (List.length_finRange.le)

end Invariant

end State

section Counts

variable {c : Int} (h0 : 0 ≤ c) (h1 : c < 2 ^ 31)

include h0 h1

theorem ofInt_eq_ofNat : UInt32.ofInt c = UInt32.ofNat c.toNat := by
  have hmod : (c % 2 ^ 32).toNat = c.toNat := by omega
  rw [UInt32.ofInt, hmod]

theorem toNat_ofInt : (UInt32.ofInt c).toNat = c.toNat := by
  rw [ofInt_eq_ofNat h0 h1, UInt32.toNat_ofNat']
  omega

theorem toInt_toNat_ofInt : toInt (UInt32.ofInt c).toNat = c := by
  rw [toNat_ofInt h0 h1, Int.toNat_of_nonneg h0]
  exact toInt_eq_self (by omega) h1

end Counts

namespace Kind

def elementSize : Kind → Nat
  | .syscalls => 4
  | .uids => 4
  | .progs => 16

def toCopy : Kind → Nat → Nat
  | .syscalls => wordsToCopy
  | .uids => wordsToCopy
  | .progs => bytesToCopy

/-- The names number fewer than 2^27, so that the bytes of a copy of `n` elements are an `int`. -/
def Fits (kind : Kind) (n : Nat) : Prop :=
  kind = .progs → n < 2 ^ 27

theorem toCopy_of_fits {kind : Kind} {n : Nat} (h : kind.Fits n) (hlt : n < 2 ^ 31)
    : kind.toCopy n = n * kind.elementSize ∧ n * kind.elementSize < 2 ^ 63 := by
  cases kind with
  | syscalls =>
    dsimp only [toCopy, wordsToCopy, toSize, elementSize]
    omega
  | uids =>
    dsimp only [toCopy, wordsToCopy, toSize, elementSize]
    omega
  | progs =>
    have := h rfl
    dsimp only [toCopy, bytesToCopy, elementSize]
    rw [toInt_eq_self (by omega) (by omega), toSize]
    omega

theorem toCopy_of_not_fits {kind : Kind} {n : Nat} (h : ¬kind.Fits n)
    : 2 ^ 63 ≤ kind.toCopy n ∨ kind.toCopy n < n * kind.elementSize := by
  unfold Fits at h
  push Not at h
  obtain ⟨rfl, h⟩ := h
  dsimp only [toCopy, bytesToCopy, toSize, toInt, elementSize]
  rw [Int.bmod_def]
  omega

end Kind

theorem UserWrite.entities_upTo_of_lt {w : UserWrite} {n : Nat} (h : n < w.bytes.length)
    : (w.upTo n).entities = w.entities.take (n / w.elementSize) := by
  rw [upTo_of_lt h, entities]

section Result

variable {env : Env} {arg : FetchAll} {s : State K} {α : Type}
  {getAll : Env → Int → State K → Except Int (Ptr × List α) × State K} {size : Nat → Nat}
  {write : List α → UserWrite}

def FindsAll (env : Env) (r : Except Int (Ptr × List α) × State K) (size : Nat → Nat)
    (write : List α → UserWrite) (all : List Entity) : Prop :=
  (r.1 = .error (-ENOMEM) ∧ ¬env.Succeeds)
    ∨ ∃ buffer l, r.1 = .ok (buffer, l) ∧ l.length = all.length ∧ (write l).entities = all
      ∧ size l.length = (write l).bytes.length ∧ size l.length < 2 ^ 63

theorem fetchAll_cases {all : List Entity} (hmax : arg.max ≠ 0) (hlist : arg.list ≠ 0)
    (hall : 0 < all.length)
    (hget : FindsAll env (getAll env (toInt arg.max.toNat) s) size write all)
    : let r := fetchAll env arg getAll size write s
      (r.ret < 0 ∧ ¬env.Succeeds)
        ∨ (r.ret = 0 ∧ ∃ w, r.out = [w, .fetchAll { arg with copied := UInt32.ofNat all.length }]
          ∧ w.entities = all) := by
  intro r
  have h : Fetched env arg size write s (getAll env (toInt arg.max.toNat) s) r :=
    fetchAll_fetched env arg getAll size write s
  clear_value r
  generalize getAll env (toInt arg.max.toNat) s = res at h hget
  cases h with
  | refused h =>
    left
    exact ⟨by simp [IoctlResult.fail, EFAULT], fun henv => h ⟨henv.copyFromUser, hmax, hlist⟩⟩
  | failed h =>
    rcases hget with ⟨hres, henv⟩ | ⟨_, _, hres, _⟩ <;> cases hres
    exact .inl ⟨by simp [ENOMEM], henv⟩
  | empty h =>
    rcases hget with ⟨hres, _⟩ | ⟨_, _, hres, hlen, _⟩ <;> cases hres
    rw [← hlen] at hall
    cases hall
  | cut h hl h0 =>
    rcases hget with ⟨hres, _⟩ | ⟨_, _, hres, _, _, _, hlt⟩ <;> cases hres
    exact .inl ⟨by simp [EFAULT], fun henv => h0 (Env.copied_eq (henv.copyToUser _ _) hlt)⟩
  | listed h hl h0 h1 =>
    left
    refine ⟨by simp [EFAULT], fun henv => ?_⟩
    rw [Env.copied_eq (henv.copyToUser _ _) (by decide)] at h1
    exact h1.ne rfl
  | @written buffer l s' h hl h0 h1 =>
    rcases hget with ⟨hres, _⟩ | ⟨_, _, hres, hlen, hw, hbytes, _⟩ <;> cases hres
    refine .inr ⟨rfl, write l, ?_, hw⟩
    rw [hbytes, UserWrite.upTo_length, hlen]

theorem fetchAll_granted (size : Nat → Nat) (write : List α → UserWrite) {buffer : Ptr} {l : List α}
    {s' : State K} (hin : env.copyFromUser = true)
    (hcopy : ∀ k size, size ≤ env.copyToUser k size) (hmax : arg.max ≠ 0) (hlist : arg.list ≠ 0)
    (hget : getAll env (toInt arg.max.toNat) s = (.ok (buffer, l), s')) (hl : l ≠ [])
    : let r := fetchAll env arg getAll size write s
      (2 ^ 63 ≤ size l.length ∧ r.ret = -EFAULT)
        ∨ (size l.length < 2 ^ 63 ∧ r.ret = 0
          ∧ r.out = [(write l).upTo (size l.length),
            .fetchAll { arg with copied := UInt32.ofNat l.length }]) := by
  intro r
  have h : Fetched env arg size write s (getAll env (toInt arg.max.toNat) s) r :=
    fetchAll_fetched env arg getAll size write s
  clear_value r
  rw [hget] at h
  cases h with
  | refused h => exact absurd ⟨hin, hmax, hlist⟩ h
  | empty => exact absurd rfl hl
  | cut h hl h0 =>
    refine .inl ⟨?_, rfl⟩
    by_contra hlt
    exact h0 (Env.copied_eq (hcopy _ _) (by omega))
  | listed h hl h0 h1 =>
    rw [Env.copied_eq (hcopy _ _) (by decide)] at h1
    exact absurd rfl h1.ne
  | written h hl h0 =>
    refine .inr ⟨?_, rfl, rfl⟩
    by_contra hge
    have h1 : env.copied 0 (size l.length) = 0 := env.copied_huge 0 (by omega)
    omega

end Result

def withBuffer {α : Type} (env : Env) (s : State K) (size : Nat) (l : List α)
    : Except Int (Ptr × List α) × State K :=
  match s.heap.kmalloc (env.kmalloc 0 size) size with
  | (none, heap) => (.error (-ENOMEM), { s with heap })
  | (some buffer, heap) => (.ok (buffer, l), { s with heap })

theorem withBuffer_huge {env : Env} {s : State K} {α : Type} {size : Nat} (l : List α)
    (h : 2 ^ 63 ≤ size)
    : withBuffer env s size l = (.error (-ENOMEM), s) := by
  unfold withBuffer Heap.kmalloc
  rw [if_neg (by omega), if_neg (by omega)]

theorem withBuffer_granted {env : Env} {s : State K} {α : Type} {size : Nat} (l : List α)
    (h : env.kmalloc 0 size = true) (hlt : size < 2 ^ 63)
    : ∃ buffer heap, withBuffer env s size l = (.ok (buffer, l), { s with heap }) := by
  unfold withBuffer
  by_cases h0 : size = 0
  . rw [h0, Heap.kmalloc, if_pos rfl]
    exact ⟨_, _, rfl⟩
  . rw [Heap.kmalloc_eq _ _ h0 hlt, h, if_pos rfl]
    exact ⟨_, _, rfl⟩

theorem getAllSyscalls_eq (env : Env) (inMax : Int) (s : State K)
    : getAllSyscalls env inMax s
        = withBuffer env s (toSize (min s.sys.sysLen inMax * 4))
            (copyLoop (fun i => s.sys.syscallArray i ≠ 0) (fun i => ((i : Nat) : Int))
              (min s.sys.sysLen inMax) 0 (List.finRange K.nrSyscalls)) := rfl

theorem getAllUids_eq (env : Env) (inMax : Int) (s : State K)
    : getAllUids env inMax s
        = withBuffer env s (toSize (toInt (min s.uids.uidsLen inMax) * 4))
            (copyLoop (fun _ => true) (fun entry => entry.uid) (toInt (min s.uids.uidsLen inMax)) 0
              s.uids.uidHash.toList) := rfl

theorem getAllProgs_eq (env : Env) (inMax : Int) (s : State K)
    : getAllProgs env inMax s
        = withBuffer env s (toSize (toInt (min s.progs.progNameLen inMax)) * 16)
            (copyNames env.junk.names 0
              (copyLoop (fun _ => true) (fun entry => entry.name)
                (toInt (min s.progs.progNameLen inMax)) 0 s.progs.progHash.toList)) := rfl

def Fills {α : Type} (env : Env) (s : State K) (kind : Kind)
    (r : Except Int (Ptr × List α) × State K) (write : List α → UserWrite) (m : Nat) : Prop :=
  ∃ l, l.length = min m (s.cardinality kind) ∧ (write l).entities = (s.entities kind).take m
    ∧ r = withBuffer env s (l.length * kind.elementSize) l

namespace State.Invariant

variable {T : SyscallTable K} {s : State K} {inMax : Int}

theorem fills_of_take {α β : Type} (h : s.Invariant T) (size : Nat) {env : Env} {kind : Kind}
    {r : Except Int (Ptr × List β) × State K} {write : List β → UserWrite} {xs : List α}
    {e : α → Entity} {l : List β} {m : Nat} (hent : s.entities kind = xs.map e)
    (hlen : l.length = min m xs.length) (hwrite : (write l).entities = (xs.take m).map e)
    (hsize : size = l.length * kind.elementSize) (hr : r = withBuffer env s size l)
    : Fills env s kind r write m := by
  refine ⟨l, ?_, ?_, hsize ▸ hr⟩
  . rw [hlen, h.cardinality_eq, hent, List.length_map]
  . rw [hwrite, hent, List.map_take]

theorem take_copyLoop {α β : Type} (p : α → Bool) (f : α → β) {n : Nat} {xs : List α}
    (hn : n = (xs.filter p).length) (h0 : 0 ≤ inMax)
    : copyLoop p f (min n inMax) 0 xs = ((xs.filter p).take inMax.toNat).map f := by
  rw [copyLoop_eq_take]
  congr 1
  rw [List.take_eq_take_iff]
  omega

theorem min_cardinality_lt (s : State K) (kind : Kind) (h0 : 0 ≤ inMax) (h1 : inMax < 2 ^ 31)
    : toInt (min (s.cardinality kind : Int) inMax) = min (s.cardinality kind : Int) inMax
      ∧ toSize (min (s.cardinality kind : Int) inMax) = min inMax.toNat (s.cardinality kind)
      ∧ toSize (min (s.cardinality kind : Int) inMax * 4)
        = min inMax.toNat (s.cardinality kind) * 4 := by
  refine ⟨toInt_eq_self (by omega) (by omega), ?_, ?_⟩
  . unfold toSize
    omega
  . unfold toSize
    omega

theorem getAllSyscalls_fills (h : s.Invariant T) (env : Env) (h0 : 0 ≤ inMax)
    (h1 : inMax < 2 ^ 31)
    : Fills env s .syscalls (getAllSyscalls env inMax s) .syscalls inMax.toNat := by
  obtain ⟨_, _, hsize⟩ := min_cardinality_lt s .syscalls h0 h1
  have hcard := h.cardinality_eq .syscalls
  rw [entities, List.length_map] at hcard
  rw [getAllSyscalls_eq, h.sysLen_eq, hsize, take_copyLoop _ _ hcard h0]
  refine h.fills_of_take (min inMax.toNat (s.cardinality .syscalls) * 4) rfl ?_ ?_ ?_ rfl
  . rw [List.length_map, List.length_take]
  . rw [UserWrite.entities, List.map_map]
    rfl
  . rw [List.length_map, List.length_take, hcard]
    rfl

theorem getAllUids_fills (h : s.Invariant T) (env : Env) (h0 : 0 ≤ inMax) (h1 : inMax < 2 ^ 31)
    : Fills env s .uids (getAllUids env inMax s) .uids inMax.toNat := by
  obtain ⟨hint, _, hsize⟩ := min_cardinality_lt s .uids h0 h1
  have hcard := h.cardinality_eq .uids
  rw [entities, List.length_map] at hcard
  rw [getAllUids_eq, h.uidsLen_eq, hint, hsize,
    take_copyLoop _ _ (by rwa [List.filter_true]) h0, List.filter_true]
  refine h.fills_of_take (min inMax.toNat (s.cardinality .uids) * 4) rfl ?_ ?_ ?_ rfl
  . rw [List.length_map, List.length_take]
  . rw [UserWrite.entities, List.map_map]
    rfl
  . rw [List.length_map, List.length_take, hcard]
    rfl

theorem getAllProgs_fills (h : s.Invariant T) (env : Env) (h0 : 0 ≤ inMax) (h1 : inMax < 2 ^ 31)
    : Fills env s .progs (getAllProgs env inMax s) .progs inMax.toNat := by
  obtain ⟨hint, hsize, _⟩ := min_cardinality_lt s .progs h0 h1
  have hcard := h.cardinality_eq .progs
  rw [entities, List.length_map] at hcard
  have hstr : ((copyNames env.junk.names 0
      ((s.progs.progHash.toList.take inMax.toNat).map fun entry => entry.name)).map Comm.str)
      = (s.progs.progHash.toList.take inMax.toNat).map fun entry => entry.name.str := by
    rw [map_str_copyNames, List.map_map]
    apply List.map_congr_left
    intro node hmem
    exact h.progKey_name (List.mem_of_mem_take hmem)
  have hlen := congrArg List.length hstr
  rw [List.length_map, List.length_map, List.length_take] at hlen
  rw [getAllProgs_eq, h.progNameLen_eq, hint, hsize,
    take_copyLoop _ _ (by rwa [List.filter_true]) h0, List.filter_true]
  refine h.fills_of_take (min inMax.toNat (s.cardinality .progs) * 16) rfl hlen ?_ ?_ rfl
  . have := congrArg (List.map Entity.prog) hstr
    simpa [UserWrite.entities, Function.comp_def] using this
  . rw [hlen, hcard]
    rfl

theorem findsAll_of_fills {β : Type} (h : s.Invariant T) {env : Env} {kind : Kind}
    {r : Except Int (Ptr × List β) × State K} {write : List β → UserWrite} {m : Nat}
    (hr : Fills env s kind r write m)
    (hbytes : ∀ l, (write l).bytes.length = l.length * kind.elementSize)
    (hm : m = (s.entities kind).length) (h0 : 0 < m) (h1 : m < 2 ^ 31) (hfits : kind.Fits m)
    : FindsAll env r kind.toCopy write (s.entities kind) := by
  obtain ⟨l, hlen, hw, rfl⟩ := hr
  rw [h.cardinality_eq, ← hm, min_self] at hlen
  rw [List.take_of_length_le (by omega)] at hw
  obtain ⟨hcopy, hlt⟩ := Kind.toCopy_of_fits hfits h1
  rw [← hlen] at hcopy hlt
  have hne : l.length * kind.elementSize ≠ 0 := by
    cases kind <;> dsimp only [Kind.elementSize] <;> omega
  unfold withBuffer
  rw [Heap.kmalloc_eq _ _ hne hlt]
  cases hk : env.kmalloc 0 (l.length * kind.elementSize) with
  | false =>
    refine .inl ⟨rfl, fun henv => ?_⟩
    rw [henv.kmalloc] at hk
    contradiction
  | true =>
    refine .inr ⟨_, l, rfl, hlen.trans hm, hw, ?_, ?_⟩
    . rw [hcopy, hbytes]
    . rwa [hcopy]

theorem fills (h : s.Invariant T) (env : Env) (euid : UInt32) (kind : Kind) (arg : FetchAll)
    (h1 : arg.max.toNat < 2 ^ 31)
    : ∃ (β : Type) (getAll : Env → Int → State K → Except Int (Ptr × List β) × State K)
        (write : List β → UserWrite),
      throttlingIoctl env euid (kind.fetch arg) s = fetchAll env arg getAll kind.toCopy write s
        ∧ (∀ l, (write l).bytes.length = l.length * kind.elementSize)
        ∧ (∀ l, (write l).elementSize = kind.elementSize)
        ∧ Fills env s kind (getAll env (toInt arg.max.toNat) s) write arg.max.toNat := by
  have hint : toInt arg.max.toNat = (arg.max.toNat : Int) := toInt_eq_self (by omega) (by omega)
  have h0 : 0 ≤ toInt arg.max.toNat := by omega
  have h1' : toInt arg.max.toNat < 2 ^ 31 := by omega
  have hmax : (toInt arg.max.toNat).toNat = arg.max.toNat := by omega
  cases kind with
  | syscalls =>
    have hfills := h.getAllSyscalls_fills env h0 h1'
    rw [hmax] at hfills
    exact ⟨Int, getAllSyscalls, .syscalls, rfl, UserWrite.length_syscalls, fun _ => rfl, hfills⟩
  | uids =>
    have hfills := h.getAllUids_fills env h0 h1'
    rw [hmax] at hfills
    exact ⟨UInt32, getAllUids, .uids, rfl, UserWrite.length_uids, fun _ => rfl, hfills⟩
  | progs =>
    have hfills := h.getAllProgs_fills env h0 h1'
    rw [hmax] at hfills
    exact ⟨Comm, getAllProgs, .progs, rfl, UserWrite.length_progs, fun _ => rfl, hfills⟩

end State.Invariant

def Yields (env : Env) (euid : UInt32) (kind : Kind) (s : State K) (c : Int) : Prop :=
  let r := throttlingIoctl env euid (.getNumber kind.selector) s
  r.ret = 0 ∧ r.out = [.number c]

structure CountThenFetch (s : State K) (kind : Kind) : Prop where
  count : ∀ env euid c, Yields env euid kind s c → c = s.cardinality kind
  fetch : ∀ env euid c, Yields env euid kind s c → 0 < c →
    ∀ env' euid' (arg : FetchAll), env'.Succeeds → arg.list ≠ 0 → arg.max = UInt32.ofInt c →
      let s' := (throttlingIoctl env euid (.getNumber kind.selector) s).state
      let r := throttlingIoctl env' euid' (kind.fetch arg) s'
      r.ret = 0
        ∧ ∃ w, r.out = [w, .fetchAll { arg with copied := UInt32.ofInt c }]
          ∧ w.entities.Nodup ∧ ∀ x, x ∈ w.entities ↔ x ∈ s.registered kind
  none : ∀ env euid malloc, listing env euid malloc kind s = .none → s.registered kind = ∅
  shown : ∀ env euid malloc copied list, listing env euid malloc kind s = .shown copied list →
    ∀ x ∈ s.registered kind, x ∈ list

/--
The count of the kind is the number it stands for, as an `int`: the system calls are counted by the
number of uids and the uids by the number of system calls. A negative `int` is refused. The bytes of
2^27 names are no `int` any more.
-/
def State.Agrees (s : State K) : Kind → Prop
  | .syscalls =>
    toInt (s.cardinality .uids) < 0 ∨ toInt (s.cardinality .uids) = s.cardinality .syscalls
  | .uids => s.cardinality .syscalls = s.cardinality .uids
  | .progs =>
    toInt (s.cardinality .progs) < 0 ∨ s.cardinality .progs < 2 ^ 27

section Count

variable {T : SyscallTable K} {s : State K} {kind : Kind}

theorem getNumber_eq (env : Env) (euid : UInt32) (kind : Kind) (s : State K)
    : throttlingIoctl env euid (.getNumber kind.selector) s
        = if env.copyFromUser = false then .fail EFAULT s
          else if getLenght kind.selector s < 0 then .fail 1 s
          else if env.copied 0 4 = 4 then
            { ret := 0, out := [.number (getLenght kind.selector s)], state := s }
          else .fail EFAULT s := by
  cases kind <;> rfl

theorem getNumber_cases (env : Env) (euid : UInt32) (kind : Kind) (s : State K)
    : let r := throttlingIoctl env euid (.getNumber kind.selector) s
      r.state = s ∧ (r.ret < 0
        ∨ (r.ret = 0 ∧ r.out = [.number (getLenght kind.selector s)]
          ∧ 0 ≤ getLenght kind.selector s)) := by
  dsimp only
  rw [getNumber_eq]
  split
  . exact ⟨rfl, .inl (by simp [IoctlResult.fail, EFAULT])⟩
  . split
    . exact ⟨rfl, .inl (by simp [IoctlResult.fail])⟩
    . split
      . exact ⟨rfl, .inr ⟨rfl, rfl, by omega⟩⟩
      . exact ⟨rfl, .inl (by simp [IoctlResult.fail, EFAULT])⟩

theorem yields_sample (h : 0 ≤ getLenght kind.selector s)
    : Yields Env.sample 0 kind s (getLenght kind.selector s) := by
  unfold Yields
  rw [getNumber_eq, if_neg (by decide), if_neg (by omega)]
  exact ⟨rfl, rfl⟩

theorem Yields.eq {env : Env} {euid : UInt32} {c : Int} (h : Yields env euid kind s c)
    : c = getLenght kind.selector s ∧ 0 ≤ c
      ∧ (throttlingIoctl env euid (.getNumber kind.selector) s).state = s := by
  obtain ⟨hret, hout⟩ := h
  obtain ⟨hs, hneg | ⟨_, hout', hpos⟩⟩ := getNumber_cases env euid kind s
  . omega
  . rw [hout'] at hout
    have : c = getLenght kind.selector s := by simpa using hout.symm
    exact ⟨this, this ▸ hpos, hs⟩

namespace State.Invariant

theorem getLenght_eq (h : s.Invariant T) (kind : Kind)
    : getLenght kind.selector s = match kind with
      | .syscalls => toInt (s.cardinality .uids)
      | .uids => s.cardinality .syscalls
      | .progs => toInt (s.cardinality .progs) := by
  cases kind with
  | syscalls => exact congrArg toInt h.uidsLen_eq
  | uids => exact h.sysLen_eq
  | progs => exact congrArg toInt h.progNameLen_eq

theorem toInt_lt (x : Int) : toInt x < 2 ^ 31 := by
  have := Int.bmod_lt (x := x) (m := 2 ^ 32) (by decide)
  unfold toInt
  omega

theorem getLenght_lt (h : s.Invariant T) (kind : Kind) : getLenght kind.selector s < 2 ^ 31 := by
  rw [h.getLenght_eq]
  cases kind with
  | syscalls => exact toInt_lt _
  | uids =>
    have := h.cardinality_syscalls_le
    have := K.nrSyscalls_lt
    dsimp only
    omega
  | progs => exact toInt_lt _

theorem agrees_iff (h : s.Invariant T) (kind : Kind)
    : s.Agrees kind ↔ getLenght kind.selector s < 0
        ∨ (getLenght kind.selector s = s.cardinality kind ∧ kind.Fits (s.cardinality kind)) := by
  rw [h.getLenght_eq]
  cases kind with
  | syscalls => simp [State.Agrees, Kind.Fits]
  | uids =>
    simp only [State.Agrees, Kind.Fits, reduceCtorEq, false_imp_iff, and_true]
    omega
  | progs =>
    simp only [State.Agrees, Kind.Fits, true_imp_iff]
    refine or_congr_right ⟨fun hlt => ⟨toInt_eq_self (by omega) (by omega), hlt⟩, fun h => h.2⟩

theorem fetch_cases (h : s.Invariant T) (kind : Kind) (env : Env) (euid : UInt32) (arg : FetchAll)
    {c : Int} (hc : c = s.cardinality kind) (hfits : kind.Fits (s.cardinality kind)) (h0 : 0 < c)
    (h1 : c < 2 ^ 31) (hlist : arg.list ≠ 0) (hmax : arg.max = UInt32.ofInt c)
    : let r := throttlingIoctl env euid (kind.fetch arg) s
      (r.ret < 0 ∧ ¬env.Succeeds)
        ∨ (r.ret = 0 ∧ ∃ w, r.out = [w, .fetchAll { arg with copied := UInt32.ofInt c }]
          ∧ w.entities = s.entities kind) := by
  have hint : toInt arg.max.toNat = c := by
    rw [hmax]
    exact toInt_toNat_ofInt (by omega) h1
  have hne : arg.max ≠ 0 := by
    intro h
    rw [h] at hint
    have : toInt (UInt32.toNat 0) = 0 := by decide
    omega
  have hlen : (s.entities kind).length = c.toNat := by
    rw [← h.cardinality_eq]
    omega
  have hof : UInt32.ofNat (s.entities kind).length = UInt32.ofInt c := by
    rw [hlen, ofInt_eq_ofNat (by omega) h1]
  have hnat : arg.max.toNat = (s.entities kind).length := by
    rw [hmax, toNat_ofInt (by omega) h1, hlen]
  obtain ⟨β, getAll, write, hio, hbytes, _, hfills⟩ := h.fills env euid kind arg (by omega)
  rw [h.cardinality_eq, ← hnat] at hfits
  dsimp only
  rw [← hof, hio]
  exact fetchAll_cases hne hlist (by omega)
    (h.findsAll_of_fills hfills hbytes hnat (by omega) (by omega) hfits)

/-- The bytes of too many names are none at all, or fewer than they fill. -/
theorem fetch_of_not_fits (h : s.Invariant T) {env : Env} (euid : UInt32) {arg : FetchAll}
    (hin : env.copyFromUser = true) (hcopy : ∀ k size, size ≤ env.copyToUser k size)
    (hk : ∀ k size, size ≤ s.cardinality kind * kind.elementSize → env.kmalloc k size = true)
    (hmax : arg.max ≠ 0) (hlist : arg.list ≠ 0) (hlt : arg.max.toNat < 2 ^ 31)
    (hfits : ¬kind.Fits (min arg.max.toNat (s.cardinality kind)))
    : let r := throttlingIoctl env euid (kind.fetch arg) s
      r.ret = -EFAULT ∨ ∃ w arg', r.out = [w, .fetchAll arg']
        ∧ w.entities.length < min arg.max.toNat (s.cardinality kind) := by
  obtain ⟨β, getAll, write, hio, hbytes, helem, l, hlen, hw, hget⟩ := h.fills env euid kind arg hlt
  rw [← hlen] at hfits ⊢
  have hpos : 0 < kind.elementSize := by cases kind <;> decide
  have hl : l ≠ [] := by
    rintro rfl
    exact hfits fun _ => by simp
  have hle : l.length ≤ s.cardinality kind := by omega
  have hsize : l.length * kind.elementSize < 2 ^ 63 := by
    cases kind <;> dsimp only [Kind.elementSize] <;> omega
  obtain ⟨buffer, heap, hbuf⟩ := withBuffer_granted (s := s) l
    (hk 0 _ (Nat.mul_le_mul_right _ hle)) hsize
  rw [hbuf] at hget
  intro r
  rcases fetchAll_granted kind.toCopy write hin hcopy hmax hlist hget hl with
    ⟨_, hret⟩ | ⟨hsmall, hret, hout⟩
  . left
    rw [← hret, ← hio]
  . right
    refine ⟨_, _, hio ▸ hout, ?_⟩
    have hcut : kind.toCopy l.length < l.length * kind.elementSize := by
      rcases Kind.toCopy_of_not_fits hfits with hhuge | hcut
      . omega
      . exact hcut
    rw [UserWrite.entities_upTo_of_lt ((hbytes l).symm ▸ hcut), helem]
    refine lt_of_le_of_lt (List.length_take_le _ _) ?_
    rwa [Nat.div_lt_iff_lt_mul hpos]

/-- A run of the fetch whose copies succeed lists all names only if they fit. -/
theorem fits_of_countThenFetch (h : s.Invariant T) (hc : CountThenFetch s kind)
    (hpos : 0 ≤ getLenght kind.selector s) : kind.Fits (s.cardinality kind) := by
  by_contra hfits
  have hyields := yields_sample hpos
  have hcard := hc.count _ _ _ hyields
  have hlt := h.getLenght_lt kind
  have hge : 2 ^ 27 ≤ s.cardinality kind := by
    unfold Kind.Fits at hfits
    push Not at hfits
    exact hfits.2
  let arg : FetchAll := ⟨1, UInt32.ofInt (getLenght kind.selector s), 0⟩
  have hlist : arg.list ≠ 0 := by simp [arg]
  have hnat : arg.max.toNat = s.cardinality kind := by
    have := toNat_ofInt hpos hlt
    dsimp only [arg]
    omega
  have hmax : arg.max ≠ 0 := by
    rw [Ne, ← UInt32.toNat_inj, hnat]
    exact fun h0 => by simp [h0] at hge
  have hmin : min arg.max.toNat (s.cardinality kind) = s.cardinality kind := by
    rw [hnat, Nat.min_self]
  obtain ⟨hret, w, hout, hnodup, hmem⟩ :=
    hc.fetch _ _ _ hyields (by omega) Env.sample 0 arg Env.succeeds_sample hlist rfl
  rw [(getNumber_cases Env.sample 0 kind s).1] at hret hout
  rcases h.fetch_of_not_fits 0 Env.succeeds_sample.copyFromUser
    Env.succeeds_sample.copyToUser (fun _ _ _ => rfl) hmax hlist (by omega) (by rwa [hmin])
      with hfail | ⟨w', arg', hout', hshort⟩
  . rw [hret] at hfail
    exact absurd hfail (by decide)
  . rw [hout, List.cons.injEq] at hout'
    have hperm : w.entities.Perm (s.entities kind) :=
      (List.perm_ext_iff_of_nodup hnodup (h.nodup_entities kind)).mpr fun x =>
        (hmem x).trans (h.mem_entities kind x).symm
    rw [← hout'.1, hmin, h.cardinality_eq, hperm.length_eq] at hshort
    exact hshort.ne rfl

theorem listing_cases (h : s.Invariant T) (hagrees : s.Agrees kind) (env : Env × Env)
    (euid : UInt32) (malloc : UInt64)
    : listing env euid malloc kind s = .error
      ∨ (listing env euid malloc kind s = .none ∧ s.entities kind = [])
      ∨ ∃ copied, listing env euid malloc kind s = .shown copied (s.entities kind) := by
  have hlt := h.getLenght_lt kind
  rw [h.agrees_iff] at hagrees
  obtain ⟨hs, hr⟩ := getNumber_cases env.1 euid kind s
  unfold listing
  dsimp only
  rw [hs]
  generalize throttlingIoctl env.1 euid (.getNumber kind.selector) s = r at hr ⊢
  rcases hr with hneg | ⟨hret, hout, hpos⟩
  . rw [if_pos hneg]
    exact .inl rfl
  . obtain ⟨hcard, hfits⟩ := hagrees.resolve_left (by omega)
    have hlen := h.cardinality_eq kind
    rw [if_neg (by omega), hout, readNumber]
    by_cases h0 : getLenght kind.selector s = 0
    . rw [if_pos h0]
      exact .inr (.inl ⟨rfl, List.length_eq_zero_iff.mp (by omega)⟩)
    . rw [if_neg h0]
      by_cases hm : malloc = 0
      . rw [if_pos hm]
        exact .inl rfl
      . rw [if_neg hm]
        have hfetch := h.fetch_cases kind env.2 euid
          ⟨malloc, UInt32.ofInt (getLenght kind.selector s), 0⟩ hcard hfits (by omega) hlt hm rfl
        rcases hfetch with ⟨hret', _⟩ | ⟨hret', w, hout', hw⟩
        . rw [if_pos hret']
          exact .inl rfl
        . rw [if_neg (by omega), hout', readListing]
          refine .inr (.inr ⟨UInt32.ofInt (getLenght kind.selector s), ?_⟩)
          have hcopied := toNat_ofInt hpos hlt
          rw [hw, List.take_of_length_le (by dsimp only; omega)]

end State.Invariant

end Count

theorem countThenFetch_iff_agrees (T : SyscallTable K) (stats : Ptr → SyscallStats) (now : Nat)
    (ops : List Op) (kind : Kind)
    : let s := Op.run (State.loaded K T stats now) ops
      CountThenFetch s kind ↔ s.Agrees kind := by
  intro s
  have h : s.Invariant T := Op.invariant_run (.loaded T stats now) ops
  constructor
  . -- a run of `IOCTL_GET_NUMBER` whose copy succeeds shows the count
    intro hc
    rw [h.agrees_iff]
    by_cases hneg : getLenght kind.selector s < 0
    . exact .inl hneg
    . have hpos : 0 ≤ getLenght kind.selector s := by omega
      exact .inr ⟨hc.count _ _ _ (yields_sample hpos), h.fits_of_countThenFetch hc hpos⟩
  . intro hagrees
    have hagrees' := (h.agrees_iff kind).mp hagrees
    refine ⟨?_, ?_, ?_, ?_⟩
    . intro env euid c hc
      obtain ⟨rfl, hpos, _⟩ := hc.eq
      exact (hagrees'.resolve_left (by omega)).1
    . intro env euid c hc h0 env' euid' arg henv hlist hmax
      obtain ⟨rfl, hpos, hs⟩ := hc.eq
      obtain ⟨hcard, hfits⟩ := hagrees'.resolve_left (by omega)
      rw [hs]
      rcases h.fetch_cases kind env' euid' arg hcard hfits h0 (h.getLenght_lt kind) hlist hmax with
        ⟨_, hfail⟩ | ⟨hret, w, hout, hw⟩
      . exact absurd henv hfail
      . exact ⟨hret, w, hout, hw ▸ h.nodup_entities kind, hw ▸ h.mem_entities kind⟩
    . intro env euid malloc hl
      rcases h.listing_cases hagrees env euid malloc with h1 | ⟨_, hnil⟩ | ⟨copied, h1⟩
      . simp [hl] at h1
      . ext x
        rw [← h.mem_entities, hnil]
        simp
      . simp [hl] at h1
    . intro env euid malloc copied list hl x hx
      rcases h.listing_cases hagrees env euid malloc with h1 | ⟨h1, _⟩ | ⟨copied, h1⟩
      . simp [hl] at h1
      . simp [hl] at h1
      . rw [hl, Listing.shown.injEq] at h1
        rw [h1.2, h.mem_entities]
        exact hx

theorem listing_misses_syscall
    : let s := Op.run (State.loaded Platform.sample SyscallTable.sample (fun _ => .zero) 0)
        [.ioctl Env.sample 0 (.registerSyscall 83)]
      listing (Env.sample, Env.sample) 0 0x1000 .syscalls s = .none
        ∧ Entity.syscall 83 ∈ s.registered .syscalls ∧ ¬CountThenFetch s .syscalls := by
  intro s
  have hnone : listing (Env.sample, Env.sample) 0 0x1000 .syscalls s = .none := by decide
  have hmem : Entity.syscall 83 ∈ s.registered .syscalls :=
    ⟨⟨83, by decide⟩, by decide, rfl⟩
  refine ⟨hnone, hmem, fun h => ?_⟩
  rw [h.none _ _ _ hnone] at hmem
  exact hmem

end Throttling

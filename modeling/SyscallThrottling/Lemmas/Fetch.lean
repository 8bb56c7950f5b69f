import SyscallThrottling.Lemmas.Listing

/-!
This module contains what the commands `IOCTL_GET_ALL_*` answer to a request, whatever its bound.
-/

namespace Throttling

variable {K : Platform}

structure Env.Grants (env : Env) (bound : Nat) : Prop where
  copyFromUser : env.copyFromUser = true
  copyToUser : ∀ k size, size ≤ env.copyToUser k size
  kmalloc : ∀ k size, size ≤ bound → env.kmalloc k size = true

def copiedField (arg : FetchAll) : List UserWrite → UInt32
  | [_, .fetchAll f] => f.copied
  | _ => arg.copied

theorem copiedField_nil (arg : FetchAll) : copiedField arg [] = arg.copied := rfl

/-- The list and the field `copied` that user space finds after the command. -/
structure Serves (s : State K) (kind : Kind) (arg : FetchAll) (r : IoctlResult K) : Prop where
  ret : r.ret = 0
  copied : (copiedField arg r.out).toNat = min arg.max.toNat (s.cardinality kind)
  length : (r.out.flatMap UserWrite.entities).length = min arg.max.toNat (s.cardinality kind)
  nodup : (r.out.flatMap UserWrite.entities).Nodup
  mem : ∀ x ∈ r.out.flatMap UserWrite.entities, x ∈ s.registered kind

theorem fetchAll_error {env : Env} {arg : FetchAll} {s : State K} {α : Type}
    {getAll : Env → Int → State K → Except Int (Ptr × List α) × State K} {size : Nat → Nat}
    {write : List α → UserWrite} {e : Int} (hin : env.copyFromUser = true) (hmax : arg.max ≠ 0)
    (hlist : arg.list ≠ 0) (hget : (getAll env (toInt arg.max.toNat) s).1 = .error e)
    : (fetchAll env arg getAll size write s).ret = e := by
  have h := fetchAll_fetched env arg getAll size write s
  generalize getAll env (toInt arg.max.toNat) s = res at h hget
  generalize fetchAll env arg getAll size write s = r at h
  cases h with
  | refused h => exact absurd ⟨hin, hmax, hlist⟩ h
  | failed => exact Except.error.inj hget
  | _ => cases hget

theorem fetchAll_empty {env : Env} {arg : FetchAll} {s s' : State K} {α : Type}
    {getAll : Env → Int → State K → Except Int (Ptr × List α) × State K} {size : Nat → Nat}
    {write : List α → UserWrite} {buffer : Ptr} (hin : env.copyFromUser = true)
    (hmax : arg.max ≠ 0) (hlist : arg.list ≠ 0)
    (hget : getAll env (toInt arg.max.toNat) s = (.ok (buffer, []), s'))
    : fetchAll env arg getAll size write s = { ret := 0, out := [], state := s' } := by
  have h := fetchAll_fetched env arg getAll size write s
  rw [hget] at h
  generalize fetchAll env arg getAll size write s = r at h
  cases h with
  | refused h => exact absurd ⟨hin, hmax, hlist⟩ h
  | empty => rfl
  | cut _ hl => exact absurd rfl hl
  | listed _ hl => exact absurd rfl hl
  | written _ hl => exact absurd rfl hl

section Fetch

variable {T : SyscallTable K} {s : State K} {kind : Kind} {arg : FetchAll} {env : Env}

theorem serves_iff_of_fits (h : s.Invariant T) (euid : UInt32) (hmax : arg.max ≠ 0)
    (hlist : arg.list ≠ 0) (henv : env.Grants (s.cardinality kind * kind.elementSize))
    (hlt : arg.max.toNat < 2 ^ 31) (hfits : kind.Fits (min arg.max.toNat (s.cardinality kind)))
    : Serves s kind arg (throttlingIoctl env euid (kind.fetch arg) s)
        ↔ s.cardinality kind = 0 → arg.copied = 0 := by
  obtain ⟨β, getAll, write, hio, hbytes, _, l, hlen, hw, hget⟩ := h.fills env euid kind arg hlt
  have hcard := h.cardinality_eq kind
  have hle : l.length ≤ s.cardinality kind := by omega
  rw [← hlen] at hfits
  obtain ⟨hcopy, hsize⟩ := Kind.toCopy_of_fits hfits (by omega)
  obtain ⟨buffer, heap, hbuf⟩ := withBuffer_granted (s := s) l
    (henv.kmalloc 0 _ (Nat.mul_le_mul_right _ hle)) hsize
  rw [hbuf] at hget
  have hpos : 0 < arg.max.toNat := by
    rw [Ne, ← UInt32.toNat_inj] at hmax
    simpa [Nat.pos_iff_ne_zero] using hmax
  rw [hio]
  by_cases hl : l = []
  . -- the early return leaves the field as it was
    subst hl
    have h0 : s.cardinality kind = 0 := by
      rw [List.length_nil] at hlen
      omega
    rw [fetchAll_empty henv.copyFromUser hmax hlist hget]
    constructor
    . intro hserves _
      have := hserves.copied
      rw [copiedField_nil, h0, Nat.min_zero] at this
      exact UInt32.toNat_inj.mp this
    . intro hc
      refine ⟨rfl, ?_, ?_, ?_, ?_⟩
      . rw [copiedField_nil, hc h0, h0]
        simp
      all_goals simp [h0]
  . have hne : s.cardinality kind ≠ 0 := by
      have := List.length_pos_iff.mpr hl
      omega
    refine ⟨fun _ h0 => absurd h0 hne, fun _ => ?_⟩
    rcases fetchAll_granted kind.toCopy write henv.copyFromUser henv.copyToUser hmax hlist hget hl
      with ⟨hhuge, _⟩ | ⟨_, hret, hout⟩
    . rw [hcopy] at hhuge
      omega
    rw [hcopy, ← hbytes, UserWrite.upTo_length] at hout
    have hflat : (fetchAll env arg getAll kind.toCopy write s).out.flatMap UserWrite.entities
        = (s.entities kind).take arg.max.toNat := by
      rw [hout]
      simpa [UserWrite.entities] using hw
    refine ⟨hret, ?_, ?_, ?_, ?_⟩
    . rw [hout, copiedField, UInt32.toNat_ofNat', hlen]
      omega
    . rw [hflat, List.length_take, hcard]
    . rw [hflat]
      exact (h.nodup_entities kind).sublist (List.take_sublist _ _)
    . intro x hx
      rw [hflat] at hx
      exact (h.mem_entities kind x).mp (List.mem_of_mem_take hx)

theorem not_serves_of_not_fits (h : s.Invariant T) (euid : UInt32) (hmax : arg.max ≠ 0)
    (hlist : arg.list ≠ 0) (henv : env.Grants (s.cardinality kind * kind.elementSize))
    (hlt : arg.max.toNat < 2 ^ 31) (hfits : ¬kind.Fits (min arg.max.toNat (s.cardinality kind)))
    : ¬Serves s kind arg (throttlingIoctl env euid (kind.fetch arg) s) := by
  intro hserves
  rcases h.fetch_of_not_fits euid henv.copyFromUser henv.copyToUser henv.kmalloc hmax hlist hlt hfits
    with hret | ⟨w, arg', hout, hshort⟩
  . rw [hserves.ret] at hret
    exact absurd hret (by decide)
  . have hlen := hserves.length
    rw [hout] at hlen
    simp only [List.flatMap_cons, List.flatMap_nil, UserWrite.entities, List.append_nil] at hlen
    omega

/-- A bound that is no `int` asks for a buffer of half the address space. -/
theorem asks_huge (h : s.Invariant T) (env : Env) (euid : UInt32) (kind : Kind) (arg : FetchAll)
    (hle : 2 ^ 31 ≤ arg.max.toNat)
    : ∃ (β : Type) (getAll : Env → Int → State K → Except Int (Ptr × List β) × State K)
        (write : List β → UserWrite) (size : Nat) (l : List β),
      throttlingIoctl env euid (kind.fetch arg) s = fetchAll env arg getAll kind.toCopy write s
        ∧ getAll env (toInt arg.max.toNat) s = withBuffer env s size l ∧ 2 ^ 63 ≤ size := by
  have hlt := arg.max.toNat_lt
  have hint : toInt arg.max.toNat = (arg.max.toNat : Int) - 2 ^ 32 := by
    unfold toInt
    rw [Int.bmod_def]
    omega
  cases kind with
  | syscalls =>
    refine ⟨Int, getAllSyscalls, .syscalls, _, _, rfl, getAllSyscalls_eq .., ?_⟩
    rw [hint, h.sysLen_eq, toSize]
    omega
  | uids =>
    refine ⟨UInt32, getAllUids, .uids, _, _, rfl, getAllUids_eq .., ?_⟩
    rw [hint, h.uidsLen_eq, toInt_eq_self (by omega) (by omega), toSize]
    omega
  | progs =>
    refine ⟨Comm, getAllProgs, .progs, _, _, rfl, getAllProgs_eq .., ?_⟩
    rw [hint, h.progNameLen_eq, toInt_eq_self (by omega) (by omega), toSize]
    omega

theorem ret_of_le (kind : Kind) (h : s.Invariant T) (euid : UInt32) (hin : env.copyFromUser = true)
    (hmax : arg.max ≠ 0) (hlist : arg.list ≠ 0) (hle : 2 ^ 31 ≤ arg.max.toNat)
    : (throttlingIoctl env euid (kind.fetch arg) s).ret = -ENOMEM := by
  obtain ⟨β, getAll, write, size, l, hio, hget, hsize⟩ := asks_huge h env euid kind arg hle
  rw [hio]
  apply fetchAll_error hin hmax hlist
  rw [hget, withBuffer_huge l hsize]

end Fetch

/--
A command `IOCTL_GET_ALL_*` does what its request asks for exactly when the bound is an `int`, so
are the bytes of the names it lists and, where nothing is registered, the caller has set the field
`copied` to 0 himself.
-/
theorem fetch_serves_iff (T : SyscallTable K) (stats : Ptr → SyscallStats) (now : Nat)
    (ops : List Op) (kind : Kind) (arg : FetchAll) (env : Env) (euid : UInt32)
    (hmax : arg.max ≠ 0) (hlist : arg.list ≠ 0)
    (henv : env.Grants
      ((Op.run (State.loaded K T stats now) ops).cardinality kind * kind.elementSize))
    : let s := Op.run (State.loaded K T stats now) ops
      Serves s kind arg (throttlingIoctl env euid (kind.fetch arg) s)
        ↔ arg.max.toNat < 2 ^ 31 ∧ kind.Fits (min arg.max.toNat (s.cardinality kind))
          ∧ (s.cardinality kind = 0 → arg.copied = 0) := by
  intro s
  have h : s.Invariant T := Op.invariant_run (.loaded T stats now) ops
  by_cases hlt : arg.max.toNat < 2 ^ 31
  . by_cases hfits : kind.Fits (min arg.max.toNat (s.cardinality kind))
    . rw [serves_iff_of_fits h euid hmax hlist henv hlt hfits, and_iff_right hlt,
        and_iff_right hfits]
    . have hnot := not_serves_of_not_fits h euid hmax hlist henv hlt hfits
      exact ⟨fun hserves => absurd hserves hnot, fun hcond => absurd hcond.2.1 hfits⟩
  . have hret := ret_of_le kind h euid henv.copyFromUser hmax hlist (by omega)
    constructor
    . intro hserves
      rw [hserves.ret] at hret
      simp [ENOMEM] at hret
    . intro hcond
      exact absurd hcond.1 hlt

theorem grants_sample (bound : Nat) : Env.sample.Grants bound where
  copyFromUser := rfl
  copyToUser _ size := Nat.le_refl size
  kmalloc _ _ _ := rfl

def sampleRequest (max copied : UInt32) : FetchAll where
  list := 0x1000
  max := max
  copied := copied

theorem fetch_serves_iff_one
    : let s := Op.run (State.loaded Platform.sample SyscallTable.sample (fun _ => .zero) 0)
        [.ioctl Env.sample 0 (.registerUid 1000)]
      Serves s .uids (sampleRequest 4 7)
        (throttlingIoctl Env.sample 1000 (.getAllUids (sampleRequest 4 7)) s) := by
  intro s
  refine (fetch_serves_iff SyscallTable.sample (fun _ => .zero) 0
    [.ioctl Env.sample 0 (.registerUid 1000)] .uids (sampleRequest 4 7) Env.sample 1000 (by decide)
    (by decide) (grants_sample _)).mpr ⟨by decide, nofun, fun h0 => ?_⟩
  have h : s.Invariant SyscallTable.sample := Op.invariant_run (.loaded _ _ _) _
  rw [← Int.natCast_eq_zero, ← h.uidsLen_eq] at h0
  exact absurd h0 (by decide)

/--
In front of an empty registry the field `copied` keeps its value, and a bound that is no `int` is
refused for lack of memory.
-/
theorem fetch_leaves_copied
    : let s := State.loaded Platform.sample SyscallTable.sample (fun _ => .zero) 0
      ¬Serves s .uids (sampleRequest 4 7)
          (throttlingIoctl Env.sample 1000 (.getAllUids (sampleRequest 4 7)) s)
        ∧ (throttlingIoctl Env.sample 1000 (.getAllUids (sampleRequest 4 7)) s).ret = 0
        ∧ copiedField (sampleRequest 4 7)
            (throttlingIoctl Env.sample 1000 (.getAllUids (sampleRequest 4 7)) s).out = 7
        ∧ ¬Serves s .uids (sampleRequest 0x80000000 0)
          (throttlingIoctl Env.sample 1000 (.getAllUids (sampleRequest 0x80000000 0)) s)
        ∧ (throttlingIoctl Env.sample 1000 (.getAllUids (sampleRequest 0x80000000 0)) s).ret
          = -ENOMEM := by
  intro s
  have h : s.Invariant SyscallTable.sample := .loaded _ _ _
  have hcopied : copiedField (sampleRequest 4 7)
      (throttlingIoctl Env.sample 1000 (.getAllUids (sampleRequest 4 7)) s).out = 7 := by
        decide +kernel
  have hret : (throttlingIoctl Env.sample 1000 (.getAllUids (sampleRequest 0x80000000 0)) s).ret
      = -ENOMEM := ret_of_le .uids h 1000 rfl (by decide) (by decide) (by decide)
  refine ⟨fun hserves => ?_, by decide +kernel, hcopied, fun hserves => ?_, hret⟩
  . have h0 : s.cardinality .uids = 0 := by
      rw [← Int.natCast_eq_zero, ← h.uidsLen_eq]
      rfl
    have := hserves.copied
    rw [hcopied, h0] at this
    exact absurd this (by decide)
  . rw [hserves.ret] at hret
    exact absurd hret (by decide)

end Throttling

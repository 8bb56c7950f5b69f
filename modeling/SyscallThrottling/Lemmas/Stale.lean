import SyscallThrottling.Impl.Scan
import SyscallThrottling.Lemmas.Erase
import SyscallThrottling.Lemmas.Listing
import SyscallThrottling.Lib.Erasure

/-!
This module contains what the queries reveal of the memory that the allocator returns: the outputs
of two runs that differ in its contents only.
-/

namespace Throttling

variable {K : Platform}

section Writes

def UserWrite.erase : UserWrite → UserWrite
  | .threadStats arg => .threadStats { arg with pad0 := 0, pad1 := 0 }
  | .syscallStats arg =>
    .syscallStats { arg with pad0 := 0, peakProgName := Vector.replicate 16 0, pad1 := 0 }
  | .progs list => .progs (list.map fun name => Comm.ofBytes name.str)
  | .torn w n => .torn w.erase n
  | w => w

namespace UserWrite

theorem length_bytes_erase (w : UserWrite) : w.erase.bytes.length = w.bytes.length := by
  induction w with
  | syscallStats arg => exact (length_syscallStats _).trans (length_syscallStats arg).symm
  | progs list =>
    rw [erase, length_progs, length_progs, List.length_map]
  | torn w n ih => rw [erase, bytes, bytes, List.length_take, List.length_take, ih]
  | _ => rfl

theorem erase_upTo (w : UserWrite) (n : Nat) : (w.upTo n).erase = w.erase.upTo n := by
  unfold upTo
  rw [length_bytes_erase]
  split <;> rfl

end UserWrite

namespace Comm

variable {dst src : Comm}

theorem length_truncate (src : Comm)
    : (CString.truncate 15 src.toList).length = min 15 src.str.length := by
  rw [CString.truncate, ← str, List.length_take]

theorem getElem_strscpy_of_le {j : Nat} (hj : j < 16) (h : j ≤ src.str.length)
    : (ofBytes (strscpy dst src).str)[j] = (strscpy dst src)[j] := by
  have hlen := length_truncate src
  rw [str_strscpy]
  simp only [ofBytes, strscpy, Vector.getElem_ofFn]
  by_cases hlt : j < (CString.truncate 15 src.toList).length
  . rw [if_pos hlt]
  . rw [if_neg hlt, if_pos (by omega), List.getD_eq_default _ _ (by omega)]

theorem getElem_strscpy_of_lt {j : Nat} (hj : j < 16) (h : src.str.length < j)
    : (strscpy dst src)[j] = dst[j] := by
  have hlen := length_truncate src
  simp only [strscpy, Vector.getElem_ofFn]
  rw [if_neg (by omega), if_neg (by omega)]
  rfl

end Comm

theorem getElem?_copyNames (names : Nat → Comm) (k : Nat) (l : List Comm) (i : Nat)
    : (copyNames names k l)[i]? = l[i]?.map fun name => Comm.strscpy (names (k + i)) name := by
  induction l generalizing k i with
  | nil => rfl
  | cons name l ih =>
    rw [copyNames]
    cases i with
    | zero => rfl
    | succ i =>
      rw [List.getElem?_cons_succ, List.getElem?_cons_succ, ih, Nat.add_right_comm, Nat.add_assoc]

/-- A name of fewer than 15 bytes whose first unwritten byte is among the first `n` of the list. -/
def ShowsTail (l : List Comm) (n : Nat) : Prop :=
  ∃ i name, l[i]? = some name ∧ name.str.length < 15 ∧ 16 * i + name.str.length + 1 < n

theorem take_copyNames_erase {names : Nat → Comm} {l : List Comm} {n : Nat} (h : ¬ShowsTail l n)
    : (UserWrite.progs (copyNames names 0 l)).erase.bytes.take n
        = (UserWrite.progs (copyNames names 0 l)).bytes.take n := by
  apply UserWrite.take_bytes_progs (List.length_map ..)
  intro i name name' hi hi' j hj hlt
  rw [List.getElem?_map, hi', Option.map_some, Option.some.injEq] at hi
  rw [getElem?_copyNames, Option.map_eq_some_iff] at hi'
  obtain ⟨src, hsrc, rfl⟩ := hi'
  subst hi
  apply Comm.getElem_strscpy_of_le hj
  by_contra hle
  exact h ⟨i, src, hsrc, by omega, by omega⟩

theorem take_copyNames_ne {names names' : Nat → Comm} {l : List Comm} {n : Nat}
    (hne : ∀ i j (_ : j < 16), (names i)[j] ≠ (names' i)[j]) (h : ShowsTail l n)
    : (UserWrite.progs (copyNames names 0 l)).bytes.take n
        ≠ (UserWrite.progs (copyNames names' 0 l)).bytes.take n := by
  obtain ⟨i, src, hsrc, hshort, hlt⟩ := h
  have hj : src.str.length + 1 < 16 := by omega
  obtain ⟨k, hk⟩ : ∃ k, k = 16 * i + (src.str.length + 1) := ⟨_, rfl⟩
  have hget : ∀ names : Nat → Comm, ((UserWrite.progs (copyNames names 0 l)).bytes.take n)[k]?
      = some (names i)[src.str.length + 1] := by
    intro names
    have hi : (copyNames names 0 l)[i]? = some (Comm.strscpy (names i) src) := by
      rw [getElem?_copyNames, hsrc, Option.map_some, Nat.zero_add]
    rw [List.getElem?_take_of_lt (by omega), hk, UserWrite.getElem?_progs hi hj,
      Comm.getElem_strscpy_of_lt hj (by omega)]
  intro heq
  apply hne i _ hj
  apply Option.some.inj
  rw [← hget names, heq, hget names']

end Writes

section Queries

variable {s : State K} {env : Env}

def IoctlResult.erase (r : IoctlResult K) : IoctlResult K :=
  { r with out := r.out.map UserWrite.erase, state := r.state.erase }

theorem State.erase_heap {s s' : State K} (h : s.erase = s'.erase) (heap : Heap)
    : ({ s with heap } : State K).erase = ({ s' with heap } : State K).erase :=
  congrArg (fun s : State K => { s with heap }) h

theorem IoctlResult.erase_mk {s s' : State K} (h : s.erase = s'.erase) (ret : Int)
    (out : List UserWrite)
    : (⟨ret, out, s⟩ : IoctlResult K).erase = (⟨ret, out, s'⟩ : IoctlResult K).erase := by
  simp only [IoctlResult.erase, h]

theorem IoctlResult.erase_cons {r r' : IoctlResult K} (h : r.erase = r'.erase) {w w' : UserWrite}
    (hw : w.erase = w'.erase)
    : ({ r with out := w :: r.out } : IoctlResult K).erase
      = ({ r' with out := w' :: r'.out } : IoctlResult K).erase := by
  simp only [erase, mk.injEq] at h
  simp only [erase, List.map_cons, hw, h]

theorem copyOut_erase {s s' : State K} {env env' : Env} (henv : env.erase = env'.erase)
    (hs : s.erase = s'.erase) (k : Nat) {w w' : UserWrite} (hw : w.erase = w'.erase)
    : (copyOut env k w s).erase = (copyOut env' k w' s').erase := by
  have hcopied : env.copied = env'.copied := (congrArg Env.copied henv :)
  have hlen : w.bytes.length = w'.bytes.length := by
    rw [← w.length_bytes_erase, hw, w'.length_bytes_erase]
  simp only [copyOut, IoctlResult.erase, hcopied, hlen, hs, List.map_cons, List.map_nil,
    UserWrite.erase_upTo, hw]

theorem fetchAll_erase {α : Type} {s s' : State K} {env env' : Env} {arg : FetchAll}
    {getAll : Env → Int → State K → Except Int (Ptr × List α) × State K} {toCopy : Nat → Nat}
    {write : List α → UserWrite} {size : Nat} {l l' : List α} (henv : env.erase = env'.erase)
    (hs : s.erase = s'.erase) (h : getAll env (toInt arg.max.toNat) s = withBuffer env s size l)
    (h' : getAll env' (toInt arg.max.toNat) s' = withBuffer env' s' size l')
    (hlen : l.length = l'.length) (hwrite : (write l).erase = (write l').erase)
    : (fetchAll env arg getAll toCopy write s).erase
      = (fetchAll env' arg getAll toCopy write s').erase := by
  have hheap : s.heap = s'.heap := (congrArg State.heap hs :)
  have hin : env.copyFromUser = env'.copyFromUser := (congrArg Env.copyFromUser henv :)
  have hcopied : env.copied = env'.copied := (congrArg Env.copied henv :)
  have hkmalloc : env.kmalloc = env'.kmalloc := (congrArg Env.kmalloc henv :)
  unfold fetchAll
  rw [h, h', withBuffer, withBuffer, hheap, hin, hkmalloc]
  by_cases h1 : env'.copyFromUser = false
  . rw [if_pos h1, if_pos h1]
    exact IoctlResult.erase_mk hs _ _
  rw [if_neg h1, if_neg h1]
  by_cases h2 : arg.max = 0 ∨ arg.list = 0
  . rw [if_pos h2, if_pos h2]
    exact IoctlResult.erase_mk hs _ _
  rw [if_neg h2, if_neg h2]
  rcases s'.heap.kmalloc (env'.kmalloc 0 size) size with ⟨_ | buffer, heap⟩
  . exact IoctlResult.erase_mk (State.erase_heap hs heap) _ _
  dsimp only
  have hfreed := State.erase_heap hs (heap.kfree buffer)
  rw [hlen, hcopied]
  by_cases h3 : l'.length = 0
  . rw [if_pos h3, if_pos h3]
    exact IoctlResult.erase_mk (State.erase_heap hs heap) _ _
  rw [if_neg h3, if_neg h3]
  have hlist : ∀ n, ((write l).upTo n).erase = ((write l').upTo n).erase := by
    intro n
    rw [UserWrite.erase_upTo, UserWrite.erase_upTo, hwrite]
  by_cases h4 : env'.copied 0 (toCopy l'.length) ≠ toCopy l'.length
  . rw [if_pos h4, if_pos h4]
    simp only [IoctlResult.erase, List.map_cons, List.map_nil, hlist, hfreed]
  . rw [if_neg h4, if_neg h4]
    exact IoctlResult.erase_cons (copyOut_erase henv hfreed 1 rfl) (hlist _)

theorem map_ofBytes_copyNames (names : Nat → Comm) (i : Nat) (l : List Comm)
    : (copyNames names i l).map (fun name => Comm.ofBytes name.str)
        = l.map fun name => Comm.ofBytes (progKey name.toList) := by
  have h := congrArg (List.map Comm.ofBytes) (map_str_copyNames names i l)
  rwa [List.map_map, List.map_map] at h

theorem queryIoctl_erase (env : Env) (s : State K) (cmd : Cmd)
    : (queryIoctl env.erase s.erase cmd).map IoctlResult.erase
        = (queryIoctl env s cmd).map IoctlResult.erase := by
  cases cmd with
  | getAllSyscalls arg =>
    exact congrArg some (fetchAll_erase rfl rfl (getAllSyscalls_eq env.erase _ s.erase)
      (getAllSyscalls_eq env _ s) rfl rfl)
  | getAllUids arg =>
    exact congrArg some (fetchAll_erase rfl rfl (getAllUids_eq env.erase _ s.erase)
      (getAllUids_eq env _ s) rfl rfl)
  | getAllProgs arg =>
    refine congrArg some (fetchAll_erase rfl rfl (getAllProgs_eq env.erase _ s.erase)
      (getAllProgs_eq env _ s) ?_ ?_)
    . exact (length_copyNames ..).trans (length_copyNames ..).symm
    . simp only [UserWrite.erase, UserWrite.progs.injEq, map_ofBytes_copyNames]
      rfl
  | getThreadStats arg =>
    obtain ⟨sys, uids, progs, mon, heap⟩ := s
    obtain ⟨copyFromUser, copyToUser, kmalloc, junk⟩ := env
    dsimp only [queryIoctl, getThreadStats, Env.erase, State.erase]
    rcases heap.kmalloc (kmalloc 0 40) 40 with ⟨_ | buffer, heap⟩
    . dsimp only
      repeat' split
      all_goals rfl
    . by_cases htype : arg.type = 1
      . simp only [htype, if_true]
        repeat' split
        all_goals first | exact congrArg some (copyOut_erase rfl rfl 0 rfl) | rfl
      . simp only [htype, if_false]
        repeat' split
        all_goals first | exact congrArg some (copyOut_erase rfl rfl 0 rfl) | rfl
  | getSyscallStats arg =>
    obtain ⟨⟨arr, tbl, hash, len, stats⟩, uids, progs, mon, heap⟩ := s
    obtain ⟨copyFromUser, copyToUser, kmalloc, junk⟩ := env
    dsimp only [queryIoctl, getSyscallStats, Env.erase, State.erase, SyscallRegistry.erase,
      SyscallRegistry.lookup]
    rcases heap.kmalloc (kmalloc 0 40) 40 with ⟨_ | buffer, heap⟩
    . dsimp only
      repeat' split
      all_goals rfl
    . generalize hash.find? _ _ = found
      cases found with
      | none =>
        dsimp only
        repeat' split
        all_goals rfl
      | some curr =>
        dsimp only
        repeat' split
        all_goals first | exact congrArg some (copyOut_erase rfl rfl 0 rfl) | rfl
  | getNumber arg =>
    have hlen : getLenght arg s.erase = getLenght arg s := rfl
    obtain ⟨copyFromUser, copyToUser, kmalloc, junk⟩ := env
    dsimp only [queryIoctl, Env.erase]
    rw [hlen]
    dsimp only [Env.copied]
    repeat' split
    all_goals rfl
  | _ =>
    -- the checks read no statistics, and the other commands are no queries
    obtain ⟨⟨arr, tbl, hash, len, stats⟩, uids, progs, mon, heap⟩ := s
    obtain ⟨copyFromUser, copyToUser, kmalloc, junk⟩ := env
    try rfl
    all_goals
      dsimp only [queryIoctl, Env.erase, State.erase, SyscallRegistry.erase]
      repeat' split
      all_goals first | exact congrArg some (copyOut_erase rfl rfl 0 rfl) | rfl

theorem apply_eraseCfg (c : Cfg K) (a : Action K)
    : (a.erase.apply (eraseCfg c)).map (fun r => eraseCfg r.2)
        = (a.apply c).map (fun r => eraseCfg r.2) := by
  cases a with
  | step l =>
    have h := congrArg (Option.map Prod.snd) (step_eraseCfg c l)
    rwa [Option.map_map, Option.map_map] at h
  | query env cmd =>
    have h := congrArg (Option.map IoctlResult.state) (queryIoctl_erase env c.shared.st cmd)
    rw [Option.map_map, Option.map_map] at h
    have hst : (eraseCfg c).shared.st = c.shared.st.erase := rfl
    simp only [Action.apply, Action.erase, hst, Option.map_map]
    generalize queryIoctl env.erase c.shared.st.erase cmd = r' at h ⊢
    generalize queryIoctl env c.shared.st cmd = r at h ⊢
    rcases r with _ | r <;> rcases r' with _ | r'
    . rfl
    . cases h
    . cases h
    . have h : r'.state.erase = r.state.erase := Option.some.inj h
      simp [eraseCfg, Shared.erase, h, Thread.erase_erase]

def progNames (s : State K) (inMax : Int) : List Comm :=
  (s.progs.progHash.toList.take inMax.toNat).map (·.name)

def GetsBuffer (env : Env) (s : State K) (arg : FetchAll) (size : Nat) : Prop :=
  arg.Accepted env ∧ (s.heap.kmalloc (env.kmalloc 0 size) size).1.isSome = true

/--
Whether a query copies memory to user space that was not written since it was allocated. In a
structure it is the padding from the byte 4 on, in a list what follows a name of fewer than 15
bytes.
-/
def Cmd.Leaks (env : Env) (s : State K) : Cmd → Prop
  | .getThreadStats arg =>
    env.copyFromUser = true ∧ 0 ≤ arg.type ∧ arg.type ≤ 1 ∧ env.kmalloc 0 40 = true
      ∧ 4 < env.copied 0 40
  | .getSyscallStats arg =>
    env.copyFromUser = true ∧ 0 ≤ arg.syscallNr ∧ arg.syscallNr < K.nrSyscalls
      ∧ env.kmalloc 0 40 = true ∧ (s.sys.lookup (arrayIndexNospec K arg.syscallNr)).isSome
      ∧ 4 < env.copied 0 40
  | .getAllProgs arg =>
    let inMax := Kind.progs.inMax s (toInt arg.max.toNat)
    let names := progNames s inMax
    GetsBuffer env s arg (Kind.progs.bufferSize inMax)
      ∧ ShowsTail names (env.copied 0 (bytesToCopy names.length))
  | _ => False

def Action.Leaks (c : Cfg K) : Action K → Prop
  | .query env cmd => cmd.Leaks env c.shared.st
  | .step _ => False

theorem leaks_erase (c : Cfg K) (a : Action K) : a.erase.Leaks (eraseCfg c) ↔ a.Leaks c := by
  rcases a with ⟨env, cmd⟩ | (e | ⟨i, ch⟩)
  . cases cmd <;> exact Iff.rfl
  . exact Iff.rfl
  . exact Iff.rfl

theorem getThreadStats_eq (env : Env) (type : Int) (s : State K)
    : ∃ cr, cr.pad0 = env.junk.threadStatsCr.pad0
        ∧ getThreadStats env type s = match s.heap.kmalloc (env.kmalloc 0 40) 40 with
          | (none, heap) => (.error (-ENOMEM), { s with heap })
          | (some toRet, heap) => (.ok (toRet, cr), { s with heap }) := by
  unfold getThreadStats
  by_cases htype : type = 1
  . simp only [htype, if_true]
    refine ⟨_, ?_, rfl⟩
    rfl
  . simp only [htype, if_false]
    refine ⟨_, ?_, rfl⟩
    rfl

theorem getThreadStats_out (env : Env) (s : State K) (arg : ThreadStatsCr)
    : ∃ r, queryIoctl env s (.getThreadStats arg) = some r
        ∧ ((¬(Cmd.getThreadStats arg).Leaks env s ∧ r.out = [])
          ∨ ((Cmd.getThreadStats arg).Leaks env s ↔ 4 < env.copied 0 40)
            ∧ ∃ cr, cr.pad0 = env.junk.threadStatsCr.pad0
              ∧ r.out = [(UserWrite.threadStats cr).upTo (env.copied 0 40)]) := by
  refine ⟨_, rfl, ?_⟩
  obtain ⟨cr, hpad, hcr⟩ := getThreadStats_eq env arg.type s
  dsimp only [Cmd.Leaks]
  by_cases h1 : env.copyFromUser = false
  . rw [if_pos h1]
    exact .inl ⟨by simp [h1], rfl⟩
  rw [if_neg h1]
  by_cases h2 : arg.type < 0 ∨ arg.type > 1
  . rw [if_pos h2]
    exact .inl ⟨by omega, rfl⟩
  rw [if_neg h2, hcr, Heap.kmalloc_eq _ _ (by decide) (by decide)]
  cases h3 : env.kmalloc 0 40 with
  | false => exact .inl ⟨by simp, rfl⟩
  | true =>
    right
    refine ⟨⟨fun h => h.2.2.2.2, fun h => ?_⟩, cr, hpad, rfl⟩
    exact ⟨eq_true_of_ne_false h1, by omega, by omega, rfl, h⟩

theorem getSyscallStats_out (env : Env) (s : State K) (arg : SyscallCr)
    : ∃ r, queryIoctl env s (.getSyscallStats arg) = some r
        ∧ ((¬(Cmd.getSyscallStats arg).Leaks env s ∧ r.out = [])
          ∨ ((Cmd.getSyscallStats arg).Leaks env s ↔ 4 < env.copied 0 40)
            ∧ ∃ cr, cr.pad0 = env.junk.syscallCr.pad0
              ∧ r.out = [(UserWrite.syscallStats cr).upTo (env.copied 0 40)]) := by
  refine ⟨_, rfl, ?_⟩
  dsimp only [Cmd.Leaks]
  by_cases h1 : env.copyFromUser = false
  . rw [if_pos h1]
    exact .inl ⟨by simp [h1], rfl⟩
  rw [if_neg h1]
  by_cases h2 : arg.syscallNr < 0 ∨ arg.syscallNr ≥ K.nrSyscalls
  . rw [if_pos h2]
    exact .inl ⟨by omega, rfl⟩
  rw [if_neg h2, getSyscallStats, Heap.kmalloc_eq _ _ (by decide) (by decide)]
  cases h3 : env.kmalloc 0 40 with
  | false => exact .inl ⟨by simp, rfl⟩
  | true =>
    cases h4 : s.sys.lookup (arrayIndexNospec K arg.syscallNr) with
    | none => exact .inl ⟨by simp, by simp [h4]⟩
    | some curr =>
      right
      refine ⟨⟨fun h => h.2.2.2.2.2, fun h => ?_⟩, ?_⟩
      . exact ⟨eq_true_of_ne_false h1, by omega, by omega, rfl, rfl, h⟩
      . simp only [if_true, h4, copyOut, UserWrite.length_syscallStats]
        refine ⟨_, ?_, rfl⟩
        rfl

theorem fetchAll_out {α : Type} {env : Env} {s : State K} {arg : FetchAll}
    {getAll : Env → Int → State K → Except Int (Ptr × List α) × State K} {size : Nat}
    {l : List α} (toCopy : Nat → Nat) (write : List α → UserWrite)
    (h : getAll env (toInt arg.max.toNat) s = withBuffer env s size l)
    : (¬(GetsBuffer env s arg size ∧ l ≠ []) ∧ (fetchAll env arg getAll toCopy write s).out = [])
      ∨ GetsBuffer env s arg size ∧ ∃ rest, (fetchAll env arg getAll toCopy write s).out
          = (write l).upTo (env.copied 0 (toCopy l.length)) :: rest
        ∧ rest.map UserWrite.erase = rest := by
  have hf := fetchAll_fetched env arg getAll toCopy write s
  rw [h, withBuffer] at hf
  unfold GetsBuffer
  generalize fetchAll env arg getAll toCopy write s = r at hf ⊢
  generalize s.heap.kmalloc (env.kmalloc 0 size) size = k at hf ⊢
  obtain ⟨_ | buffer, heap⟩ := k
  . left
    cases hf with
    | refused => exact ⟨by simp, rfl⟩
    | failed => exact ⟨by simp, rfl⟩
  . cases hf with
    | refused h => exact .inl ⟨fun hc => h hc.1.1, rfl⟩
    | empty => exact .inl ⟨fun hc => hc.2 rfl, rfl⟩
    | cut h hl h0 => exact .inr ⟨⟨h, rfl⟩, _, rfl, rfl⟩
    | listed h hl h0 => exact .inr ⟨⟨h, rfl⟩, _, by rw [h0], rfl⟩
    | written h hl h0 => exact .inr ⟨⟨h, rfl⟩, _, by rw [h0], rfl⟩

theorem bytes_upTo_four {x : Int} {l : List UInt8} {w : UserWrite} {n : Nat}
    (hw : w.bytes = intBytes x ++ l) (hn : n ≤ 4) : (w.upTo n).bytes = (intBytes x).take n := by
  rw [UserWrite.bytes_upTo, hw, List.take_append_of_le_length (by rwa [length_intBytes])]

theorem bytes_upTo_ne {w w' : UserWrite} {n : Nat} {b c : UInt8} (hw : w.bytes[4]? = some b)
    (hw' : w'.bytes[4]? = some c) (hne : b ≠ c) (hn : 4 < n)
    : (w.upTo n).bytes ≠ (w'.upTo n).bytes := by
  intro heq
  rw [UserWrite.bytes_upTo, UserWrite.bytes_upTo] at heq
  have h4 := congrArg (fun l => l[4]?) heq
  rw [List.getElem?_take_of_lt hn, List.getElem?_take_of_lt hn, hw, hw'] at h4
  exact hne (Option.some.inj h4)

end Queries

section Independence

def Env.refill (env : Env) : Env :=
  { env with
    junk :=
      { env.junk with
        threadStatsCr := { env.junk.threadStatsCr with pad0 := env.junk.threadStatsCr.pad0 + 1 }
        syscallCr := { env.junk.syscallCr with pad0 := env.junk.syscallCr.pad0 + 1 }
        names := fun i => (env.junk.names i).map (· + 1) } }

theorem Cmd.Leaks.reports {env : Env} {s : State K} {cmd : Cmd} (h : cmd.Leaks env s)
    : cmd.reports = true := by
  cases cmd <;> first | rfl | exact h.elim

theorem getAllProgs_eq_progNames (env : Env) (max : Int) (s : State K)
    : getAllProgs env max s
        = withBuffer env s (Kind.progs.bufferSize (Kind.progs.inMax s max))
            (copyNames env.junk.names 0 (progNames s (Kind.progs.inMax s max))) := by
  have htake : copyLoop (fun _ => true) (fun entry : RegisteredProg => entry.name)
      (Kind.progs.inMax s max) 0 s.progs.progHash.toList = progNames s (Kind.progs.inMax s max) := by
    rw [copyLoop_eq_take, List.filter_true, Nat.cast_zero, Int.sub_zero, progNames]
  rw [← htake]
  rfl

theorem out_erase {env : Env} {s : State K} {cmd : Cmd} {r : IoctlResult K} (h : ¬cmd.Leaks env s)
    (hreports : cmd.reports = true) (hr : queryIoctl env s cmd = some r)
    : r.out.map (fun w => w.erase.bytes) = r.out.map UserWrite.bytes := by
  have hrest : ∀ rest : List UserWrite, rest.map UserWrite.erase = rest
      → rest.map (fun w => w.erase.bytes) = rest.map UserWrite.bytes := by
    intro rest h
    have := congrArg (List.map UserWrite.bytes) h
    rwa [List.map_map] at this
  cases cmd with
  | getThreadStats arg =>
    obtain ⟨r', hr', ⟨-, hout⟩ | ⟨hleak, cr, -, hout⟩⟩ := getThreadStats_out env s arg
    all_goals obtain rfl : r' = r := Option.some.inj (hr'.symm.trans hr)
    . rw [hout, List.map_nil, List.map_nil]
    . have hle : env.copied 0 40 ≤ 4 := not_lt.mp (mt hleak.mpr h)
      rw [hout, List.map_singleton, List.map_singleton, UserWrite.erase_upTo,
        bytes_upTo_four rfl hle, bytes_upTo_four rfl hle]
  | getSyscallStats arg =>
    obtain ⟨r', hr', ⟨-, hout⟩ | ⟨hleak, cr, -, hout⟩⟩ := getSyscallStats_out env s arg
    all_goals obtain rfl : r' = r := Option.some.inj (hr'.symm.trans hr)
    . rw [hout, List.map_nil, List.map_nil]
    . have hle : env.copied 0 40 ≤ 4 := not_lt.mp (mt hleak.mpr h)
      rw [hout, List.map_singleton, List.map_singleton, UserWrite.erase_upTo,
        bytes_upTo_four rfl hle, bytes_upTo_four rfl hle]
  | getAllSyscalls arg =>
    cases hr
    rcases fetchAll_out wordsToCopy .syscalls (getAllSyscalls_eq env (toInt arg.max.toNat) s)
      with ⟨-, hout⟩ | ⟨-, rest, hout, hr⟩
    . rw [hout, List.map_nil, List.map_nil]
    . rw [hout, List.map_cons, List.map_cons, hrest rest hr, UserWrite.erase_upTo]
      rfl
  | getAllUids arg =>
    cases hr
    rcases fetchAll_out wordsToCopy .uids (getAllUids_eq env (toInt arg.max.toNat) s)
      with ⟨-, hout⟩ | ⟨-, rest, hout, hr⟩
    . rw [hout, List.map_nil, List.map_nil]
    . rw [hout, List.map_cons, List.map_cons, hrest rest hr, UserWrite.erase_upTo]
      rfl
  | getAllProgs arg =>
    cases hr
    rcases fetchAll_out bytesToCopy .progs (getAllProgs_eq_progNames env (toInt arg.max.toNat) s)
      with ⟨-, hout⟩ | ⟨hbuffer, rest, hout, hr⟩
    . rw [hout, List.map_nil, List.map_nil]
    . have htail : ¬ShowsTail _ _ := fun htail => h ⟨hbuffer, htail⟩
      rw [hout, List.map_cons, List.map_cons, hrest rest hr, UserWrite.erase_upTo,
        UserWrite.bytes_upTo, UserWrite.bytes_upTo, length_copyNames, take_copyNames_erase htail]
  | _ => cases hreports

theorem out_ne {env : Env} {s : State K} {cmd : Cmd} {r r' : IoctlResult K} (h : cmd.Leaks env s)
    (hr : queryIoctl env s cmd = some r) (hr' : queryIoctl env.refill s cmd = some r')
    : r'.out.map UserWrite.bytes ≠ r.out.map UserWrite.bytes := by
  have hleak' : cmd.Leaks env.refill s := by cases cmd <;> exact h
  have hpad : ∀ x : UInt32, (x + 1).toUInt8 ≠ x.toUInt8 := by
    intro x
    simp
  cases cmd with
  | getThreadStats arg =>
    obtain ⟨q, hq, ⟨hleak, -⟩ | ⟨hiff, cr, hpad0, hout⟩⟩ := getThreadStats_out env s arg
    . exact absurd h hleak
    obtain ⟨q', hq', ⟨hleak, -⟩ | ⟨-, cr', hpad0', hout'⟩⟩ := getThreadStats_out env.refill s arg
    . exact absurd hleak' hleak
    obtain rfl : q = r := Option.some.inj (hq.symm.trans hr)
    obtain rfl : q' = r' := Option.some.inj (hq'.symm.trans hr')
    rw [hout, hout', List.map_singleton, List.map_singleton, Ne, List.singleton_inj]
    refine bytes_upTo_ne (b := cr'.pad0.toUInt8) (c := cr.pad0.toUInt8) rfl rfl ?_ (hiff.mp h)
    rw [hpad0, hpad0']
    exact hpad _
  | getSyscallStats arg =>
    obtain ⟨q, hq, ⟨hleak, -⟩ | ⟨hiff, cr, hpad0, hout⟩⟩ := getSyscallStats_out env s arg
    . exact absurd h hleak
    obtain ⟨q', hq', ⟨hleak, -⟩ | ⟨-, cr', hpad0', hout'⟩⟩ := getSyscallStats_out env.refill s arg
    . exact absurd hleak' hleak
    obtain rfl : q = r := Option.some.inj (hq.symm.trans hr)
    obtain rfl : q' = r' := Option.some.inj (hq'.symm.trans hr')
    rw [hout, hout', List.map_singleton, List.map_singleton, Ne, List.singleton_inj]
    refine bytes_upTo_ne (b := cr'.pad0.toUInt8) (c := cr.pad0.toUInt8) rfl rfl ?_ (hiff.mp h)
    rw [hpad0, hpad0']
    exact hpad _
  | getAllProgs arg =>
    cases hr
    cases hr'
    obtain ⟨hbuffer, htail⟩ := h
    have hne : ∀ env : Env, copyNames env.junk.names 0
        (progNames s (Kind.progs.inMax s (toInt arg.max.toNat))) ≠ [] := by
      obtain ⟨i, name, hi, -⟩ := htail
      intro env hnil
      have hlen := length_copyNames env.junk.names 0
        (progNames s (Kind.progs.inMax s (toInt arg.max.toNat)))
      rw [hnil] at hlen
      rw [List.eq_nil_of_length_eq_zero hlen.symm] at hi
      cases hi
    rcases fetchAll_out bytesToCopy .progs (getAllProgs_eq_progNames env (toInt arg.max.toNat) s)
      with ⟨hnot, -⟩ | ⟨-, rest, hout, -⟩
    . exact absurd ⟨hbuffer, hne env⟩ hnot
    rcases fetchAll_out bytesToCopy .progs
      (getAllProgs_eq_progNames env.refill (toInt arg.max.toNat) s)
      with ⟨hnot, -⟩ | ⟨-, rest', hout', -⟩
    . exact absurd ⟨hbuffer, hne env.refill⟩ hnot
    rw [hout, hout', List.map_cons, List.map_cons, UserWrite.bytes_upTo, UserWrite.bytes_upTo,
      length_copyNames, length_copyNames, Ne, List.cons.injEq]
    rintro ⟨heq, -⟩
    exact take_copyNames_ne (by simp [Env.refill]) htail heq
  | _ => exact h.elim

theorem out_congr {env env' : Env} {s s' : State K} {cmd : Cmd} (henv : env.erase = env'.erase)
    (hs : s.erase = s'.erase) (h : ¬cmd.Leaks env s) (h' : ¬cmd.Leaks env' s')
    (hreports : cmd.reports = true)
    : (queryIoctl env s cmd).map (fun r => r.out.map UserWrite.bytes)
      = (queryIoctl env' s' cmd).map (fun r => r.out.map UserWrite.bytes) := by
  have herase : (queryIoctl env s cmd).map IoctlResult.erase
      = (queryIoctl env' s' cmd).map IoctlResult.erase := by
    rw [← queryIoctl_erase, henv, hs, queryIoctl_erase]
  cases hr : queryIoctl env s cmd with
  | none =>
    rw [hr, Option.map_none, eq_comm, Option.map_eq_none_iff] at herase
    rw [herase]
  | some r =>
    rw [hr, Option.map_some, eq_comm, Option.map_eq_some_iff] at herase
    obtain ⟨r', hr', heq⟩ := herase
    have hout : r'.out.map UserWrite.erase = r.out.map UserWrite.erase :=
      congrArg IoctlResult.out heq
    have hbytes := congrArg (List.map UserWrite.bytes) hout
    rw [List.map_map, List.map_map] at hbytes
    rw [hr', Option.map_some, Option.map_some, ← out_erase h hreports hr,
      ← out_erase h' hreports hr']
    exact congrArg some hbytes.symm

def Action.reports : Action K → Bool
  | .query _ cmd => cmd.reports
  | .step _ => false

theorem reports_erase (a : Action K) : a.erase.reports = a.reports := by
  rcases a with _ | (_ | _) <;> rfl

theorem apply_of_not_reports {c : Cfg K} {a : Action K} (h : a.reports = false)
    : (a.apply c).map Prod.fst = ((a.apply c).map fun r => eraseCfg r.2).map fun _ => [] := by
  cases a with
  | step l =>
    simp only [Action.apply, Option.map_map]
    rfl
  | query env cmd =>
    have h : cmd.reports = false := h
    simp only [Action.apply, h, Option.map_map]
    rfl

theorem erases
    : Erasure.Erases (Action.apply (K := K)) Action.Leaks eraseCfg Action.erase where
  congr hs ha := by
    rw [← apply_eraseCfg, hs, ha, apply_eraseCfg]
  leaks_congr hs ha h := by
    rwa [← leaks_erase, ← hs, ← ha, leaks_erase]
  out_congr {c c' a a'} hs ha h := by
    have hcongr : (a.apply c).map (fun r => eraseCfg r.2)
      = (a'.apply c').map (fun r => eraseCfg r.2)
      := by rw [← apply_eraseCfg, hs, ha, apply_eraseCfg]
    have h' : ¬a'.Leaks c' := by rwa [← leaks_erase, ← hs, ← ha, leaks_erase]
    cases hreports : a.reports with
    | false =>
      have hreports' : a'.reports = false := by
        rw [← reports_erase, ← ha, reports_erase, hreports]
      rw [apply_of_not_reports hreports, hcongr, ← apply_of_not_reports hreports']
    | true =>
      rcases a with ⟨env, cmd⟩ | _
      . rcases a' with ⟨env', cmd'⟩ | (e' | ⟨i', ch'⟩)
        . obtain ⟨henv, rfl⟩ := Action.query.inj ha
          have hst : c.shared.st.erase = c'.shared.st.erase := congrArg (fun c => c.shared.st) hs
          have hreports : cmd.reports = true := hreports
          simp only [Action.apply, hreports, if_true, Option.map_map]
          exact out_congr henv hst h h' hreports
        . cases ha
        . cases ha
      . cases hreports
  reaches {c a o c'} h hstep := by
    cases a with
    | step l => exact h.elim
    | query env cmd =>
      refine ⟨.query env.refill cmd, rfl, ?_⟩
      simp only [Action.apply, h.reports, if_true, Option.map_eq_some_iff, Prod.mk.injEq] at hstep
      obtain ⟨r, hr, rfl, -⟩ := hstep
      intro heq
      simp only [Action.apply, h.reports, if_true, Option.map_map, Option.map_eq_some_iff] at heq
      obtain ⟨r', hr', hout⟩ := heq
      exact out_ne h hr hr' hout

theorem outputs_independent_iff {T : SyscallTable K} {stats : Ptr → SyscallStats} {now : Nat}
    {as : List (Action K)} {outs : List (List (List UInt8))} {c : Cfg K}
    (hrun : Erasure.exec Action.apply (loaded K T stats now) as = some (outs, c))
    : (∀ as', as'.map Action.erase = as.map Action.erase
        → (Erasure.exec Action.apply (loaded K T stats now) as').map Prod.fst = some outs)
      ↔ Erasure.Avoids Action.apply Action.Leaks (loaded K T stats now) as :=
  erases.independent_iff hrun

/--
The memory for the statistics of the system call 83 holds `name` when they are allocated. No thread
is blocked in it before they are asked for.
-/
def peakNameRun (name : Comm) : List (Action Platform.sample) :=
  let stats := { SyscallStats.zero with peakProgName := name }
  let env := { Env.sample with junk := { Env.sample.junk with stats } }
  .step (.run 0 (.start (.register env 83))) :: (steps 0 9).map .step
    ++ [.query Env.sample (.getSyscallStats { Env.sample.junk.syscallCr with syscallNr := 83 })]

def peakNameOut (name : Comm) : Option (List (List UInt8)) :=
  (Erasure.exec Action.apply sampleLoaded (peakNameRun name)).map fun r => r.1.flatten

theorem outputs_independent_iff_peakName
    : ∃ outs c, Erasure.exec Action.apply sampleLoaded (peakNameRun (Comm.ofBytes []))
      = some (outs, c)
      ∧ ((∀ as', as'.map Action.erase = (peakNameRun (Comm.ofBytes [])).map Action.erase
          → (Erasure.exec Action.apply sampleLoaded as').map Prod.fst = some outs)
        ↔ Erasure.Avoids Action.apply Action.Leaks sampleLoaded (peakNameRun (Comm.ofBytes []))) := by
  have h : (Erasure.exec Action.apply sampleLoaded (peakNameRun (Comm.ofBytes []))).isSome := by
    decide +kernel
  obtain ⟨⟨outs, c⟩, hrun⟩ := Option.isSome_iff_exists.mp h
  exact ⟨outs, c, hrun, outputs_independent_iff hrun⟩

theorem peakName_reported
    : (peakNameRun (Comm.ofBytes [115, 115, 104])).map Action.erase
        = (peakNameRun (Comm.ofBytes [])).map Action.erase
      ∧ peakNameOut (Comm.ofBytes [115, 115, 104])
        = some [(UserWrite.syscallStats { Env.sample.junk.syscallCr with
          syscallNr := 83
          peakProgName := Comm.ofBytes [115, 115, 104] }).bytes]
      ∧ peakNameOut (Comm.ofBytes []) ≠ peakNameOut (Comm.ofBytes [115, 115, 104]) := by
  refine ⟨?_, ?_, ?_⟩
  . simp only [peakNameRun, List.map_cons, List.map_append, Action.erase, Choice.erase, Task.erase,
      Env.erase]
  . decide +kernel
  . decide +kernel

end Independence

end Throttling

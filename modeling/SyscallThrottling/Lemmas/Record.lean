import SyscallThrottling.Lemmas.Peak
import SyscallThrottling.Lemmas.Progress

/-!
This module contains what `get_syscall_stats` returns while calls of `check_and_set_statistic` store
the fields of the record one after the other.
-/

namespace Throttling

open Interleaving

variable {K : Platform}

def UpdatePc.midway : UpdatePc → Bool
  | .setUid _ => true
  | .setProgName _ => true
  | _ => false

def ReadPc.awaitsUid : ReadPc → Bool
  | .getUid _ _ => true
  | _ => false

def ReadPc.awaitsName : ReadPc → Bool
  | .getUid _ _ => true
  | .getProgName _ _ => true
  | _ => false

/--
Call `r` loads the delay while no update is midway, and no update stores a field that `r` has yet to
load for this delay.
-/
def Apart (r : Nat) (c : RecordCfg K) : RecordLbl → Prop
  | .env _ => True
  | .run i _ =>
    match c.locals i with
    | .idle => True
    | .read f => i = r → ∀ toRet p, f.pc = .getDelay toRet p →
      ∀ j u, c.locals j = .update u → u.pc.midway = false
    | .update u => ∀ f, c.locals r = .read f → ∀ p,
      (u.pc = .setUid p → f.pc.awaitsUid = false)
        ∧ (u.pc = .setProgName p → f.pc.awaitsName = false)

/-- What the owner of `stats_lock` has stored is still there. -/
def Update.Facts (x : HackedSyscall K) (i : Nat) (s : Recorded K) (u : Update) : Prop :=
  match u.pc with
  | .lookup => True
  | .compare p => p = x.stats
  | .lock p => p = x.stats
  | .setDelay p => p = x.stats ∧ s.statsLock = some i
  | .setUid p => p = x.stats ∧ s.statsLock = some i
    ∧ (s.st.sys.stats x.stats).peakDelay = u.inv.delay
  | .setProgName p => p = x.stats ∧ s.statsLock = some i
    ∧ (s.st.sys.stats x.stats).peakDelay = u.inv.delay
    ∧ (s.st.sys.stats x.stats).peakUid = u.inv.euid
  | .unlock => s.statsLock = some i
  | .done => True

inductive Update.Store (u : Update) (p : Ptr) (old : SyscallStats)
    : SyscallStats → List Invocation → Prop where
  | delay : u.pc = .setDelay p → Store u p old { old with peakDelay := u.inv.delay } []
  | uid : u.pc = .setUid p → Store u p old { old with peakUid := u.inv.euid } []
  | progName {new : SyscallStats} : u.pc = .setProgName p → new.IsOf u.inv →
    Store u p old new [u.inv]

section Update

variable {n : Fin K.nrSyscalls} {x : HackedSyscall K} {i j : Nat} {s s' : Recorded K}
  {u u' : Update} {ev : List Invocation}

theorem Update.Facts.frame (h : u.Facts x j s)
    (hs : s.statsLock = some j → s'.statsLock = some j ∧ s'.st.sys = s.st.sys)
    : u.Facts x j s' := by
  obtain ⟨inv, pc⟩ := u
  cases pc with
  | setDelay p => exact ⟨h.1, (hs h.2).1⟩
  | setUid p =>
    obtain ⟨hp, hlock, hdelay⟩ := h
    obtain ⟨hlock', hsys⟩ := hs hlock
    exact ⟨hp, hlock', by rw [hsys]; exact hdelay⟩
  | setProgName p =>
    obtain ⟨hp, hlock, hrest⟩ := h
    obtain ⟨hlock', hsys⟩ := hs hlock
    exact ⟨hp, hlock', by rw [hsys]; exact hrest⟩
  | unlock => exact (hs h).1
  | _ => exact h

theorem Update.step_cases (h : u.step n i s = some (s', u', ev))
    (hlookup : s.st.sys.lookup n = some x) (hu : u.Facts x i s)
    : u'.Facts x i s'
      ∧ ((s'.st.sys = s.st.sys ∧ ev = [] ∧ u.pc.midway = false
          ∧ ∀ j, j ≠ i → s.statsLock = some j → s'.statsLock = some j)
        ∨ ∃ new, u.Store x.stats (s.st.sys.stats x.stats) new ev ∧ s.statsLock = some i
          ∧ s' = s.setStats x.stats new ∧ (ev = [] → u'.pc.midway = true)) := by
  obtain ⟨inv, pc⟩ := u
  cases pc with
  | lookup =>
    simp only [step, hlookup] at h
    cases h
    exact ⟨rfl, .inl ⟨rfl, rfl, rfl, fun _ _ => id⟩⟩
  | compare p =>
    have hp : p = x.stats := hu
    simp only [step] at h
    split at h
    . cases h
      exact ⟨hp, .inl ⟨rfl, rfl, rfl, fun _ _ => id⟩⟩
    . cases h
      exact ⟨trivial, .inl ⟨rfl, rfl, rfl, fun _ _ => id⟩⟩
  | lock p =>
    have hp : p = x.stats := hu
    simp only [step] at h
    split at h
    . next hfree =>
      cases h
      refine ⟨⟨hp, rfl⟩, .inl ⟨rfl, rfl, rfl, fun j _ hj => ?_⟩⟩
      simp [hfree] at hj
    . contradiction
  | setDelay p =>
    obtain ⟨rfl, hlock⟩ := hu
    cases h
    refine ⟨⟨rfl, hlock, ?_⟩, .inr ⟨_, .delay rfl, hlock, rfl, fun _ => rfl⟩⟩
    simp [Recorded.setStats, goto]
  | setUid p =>
    obtain ⟨rfl, hlock, hdelay⟩ := hu
    cases h
    refine ⟨⟨rfl, hlock, ?_, ?_⟩, .inr ⟨_, .uid rfl, hlock, rfl, fun _ => rfl⟩⟩
    . simpa [Recorded.setStats, goto] using hdelay
    . simp [Recorded.setStats, goto]
  | setProgName p =>
    obtain ⟨rfl, hlock, hdelay, huid⟩ := hu
    cases h
    have hnew : SyscallStats.IsOf { s.st.sys.stats x.stats with
        peakProgName := Comm.strscpy (s.st.sys.stats x.stats).peakProgName inv.comm } inv :=
      ⟨hdelay, huid, Comm.str_strscpy _ _⟩
    exact ⟨hlock, .inr ⟨_, .progName rfl hnew, hlock, rfl, fun hnil => by cases hnil⟩⟩
  | unlock =>
    have hlock : s.statsLock = some i := hu
    cases h
    refine ⟨trivial, .inl ⟨rfl, rfl, rfl, fun j hj hj' => ?_⟩⟩
    rw [hlock, Option.some.injEq] at hj'
    exact absurd hj'.symm hj
  | done => cases h

theorem Read.step_frame {f f' : Read} (h : f.step n s = some (s', f'))
    : s'.st.sys = s.st.sys ∧ s'.statsLock = s.statsLock := by
  unfold step at h
  repeat' split at h
  all_goals
    first
    | contradiction
    | (cases h
       exact ⟨rfl, rfl⟩)

end Update

theorem StatThread.step_cases {n : Fin K.nrSyscalls} {i : Nat} {ch : Choice StatTask}
    {s s' : Recorded K} {t t' : StatThread} {ev : List Invocation}
    (h : t.step n i ch s = some (s', t', ev))
    : (t = .idle ∧ s' = s ∧ ev = [] ∧ ∃ task : StatTask, t' = task.thread)
      ∨ (∃ u u', t = .update u ∧ t' = .update u' ∧ u.step n i s = some (s', u', ev))
      ∨ (∃ f f', t = .read f ∧ t' = .read f' ∧ f.step n s = some (s', f') ∧ ev = []) := by
  cases t with
  | idle =>
    simp only [step] at h
    split at h
    . next task =>
      cases h
      exact .inl ⟨rfl, rfl, rfl, task, rfl⟩
    . contradiction
  | update u =>
    simp only [step, Option.map_eq_some_iff] at h
    obtain ⟨⟨s₁, u₁, ev₁⟩, h, heq⟩ := h
    cases heq
    exact .inr (.inl ⟨u, u₁, rfl, rfl, h⟩)
  | read f =>
    simp only [step, Option.map_eq_some_iff] at h
    obtain ⟨⟨s₁, f₁⟩, h, heq⟩ := h
    cases heq
    exact .inr (.inr ⟨f, f₁, rfl, rfl, h, rfl⟩)

def StatThread.Facts (x : HackedSyscall K) (i : Nat) (s : Recorded K) : StatThread → Prop
  | .update u => u.Facts x i s
  | _ => True

theorem StatTask.facts_thread {x : HackedSyscall K} {i : Nat} {s : Recorded K} (task : StatTask)
    : task.thread.Facts x i s := by
  cases task <;> trivial

theorem StatThread.Facts.frame {x : HackedSyscall K} {j : Nat} {s s' : Recorded K} {t : StatThread}
    (h : t.Facts x j s)
    (hs : s.statsLock = some j → s'.statsLock = some j ∧ s'.st.sys = s.st.sys)
    : t.Facts x j s' := by
  cases t with
  | update u => exact Update.Facts.frame h hs
  | _ => trivial

def updateOutline (n : Fin K.nrSyscalls) (x : HackedSyscall K)
    : System.Outline (records K n) (fun _ _ => True) where
  shared s _ := s.st.sys.lookup n = some x
  thread i s _ t := t.Facts x i s
  env_ok _ e := e.elim
  thread_ok := by
    intro c i ch s t ev _ hlookup ht hs
    rcases StatThread.step_cases hs with ⟨_, rfl, rfl, task, rfl⟩ | ⟨u, u', hi, rfl, h⟩
      | ⟨f, f', hi, rfl, h, rfl⟩
    . exact ⟨hlookup, task.facts_thread, fun _ _ _ hj => hj⟩
    . rw [hi] at ht
      obtain ⟨hu', ⟨hsys, _, _, hlock⟩ | ⟨new, _, hlock, rfl, _⟩⟩ := Update.step_cases h hlookup ht
      . refine ⟨by rwa [hsys], hu', fun j t hji hj => hj.frame fun hown => ?_⟩
        exact ⟨hlock j hji hown, hsys⟩
      . refine ⟨hlookup, hu', fun j t hji hj => hj.frame fun hown => ?_⟩
        rw [hlock, Option.some.injEq] at hown
        exact absurd hown.symm hji
    . obtain ⟨hsys, hlock⟩ := Read.step_frame h
      refine ⟨by rwa [hsys], trivial, fun j t _ hj => hj.frame fun hown => ?_⟩
      exact ⟨by rwa [hlock], hsys⟩

/-- While no update is midway, the record is the one of an update that is done. -/
def Coherent (x : HackedSyscall K) (c : RecordCfg K) : Prop :=
  (∀ j u, c.locals j = .update u → u.pc.midway = false) →
    c.trace = [] ∨ ∃ inv ∈ c.trace, (c.shared.st.sys.stats x.stats).IsOf inv

theorem Coherent.step {n : Fin K.nrSyscalls} {x : HackedSyscall K} {c c' : RecordCfg K}
    {l : RecordLbl} (h : Coherent x c) (hO : (updateOutline n x).Holds c)
    (hs : (records K n).step c l = some c') : Coherent x c' := by
  obtain ⟨hlookup, hfacts⟩ := hO
  cases l with
  | env e => exact e.elim
  | run i ch =>
    obtain ⟨s, t, ev, heq, rfl⟩ := System.step_run hs
    intro hquiet
    have hothers : (∀ u, c.locals i = .update u → u.pc.midway = false) →
        ∀ j u, c.locals j = .update u → u.pc.midway = false := by
      intro hi j u hj
      by_cases hji : j = i
      . subst hji
        exact hi u hj
      . exact hquiet j u (by rw [← hj]; exact Function.update_of_ne hji _ _)
    rcases StatThread.step_cases heq with ⟨hi, rfl, rfl, _⟩ | ⟨u, u', hi, rfl, h'⟩
      | ⟨f, f', hi, _, h', rfl⟩
    . exact h (hothers (by simp [hi]))
    . have hu := hfacts i
      rw [hi] at hu
      obtain ⟨_, ⟨hsys, rfl, hmid, _⟩ | ⟨new, hstore, _, rfl, hmid⟩⟩ :=
        Update.step_cases h' hlookup hu
      . dsimp only
        rw [hsys]
        refine h (hothers fun v hv => ?_)
        rw [hi] at hv
        cases hv
        exact hmid
      . have hmid' := hquiet i u' (Function.update_self ..)
        cases hstore with
        | progName _ hnew =>
          refine .inr ⟨u.inv, List.mem_cons_self, ?_⟩
          rwa [show (c.shared.setStats x.stats new).st.sys.stats x.stats = new from
            Function.update_self ..]
        | _ =>
          rw [hmid rfl] at hmid'
          contradiction
    . dsimp only
      rw [(Read.step_frame h').1]
      exact h (hothers (by simp [hi]))

/-- What the call returns is what this update has stored, with the delay in milliseconds. -/
structure SyscallCr.IsOf (K : Platform) (cr : SyscallCr) (inv : Invocation) : Prop where
  delay : cr.peakDelay = (K.jiffiesToMsecs inv.delay).toUInt64
  uid : cr.peakUid = inv.euid
  progName : cr.peakProgName.str = CString.truncate 15 inv.comm.toList

/-- The fields that are loaded, and those that are not, are of one update. -/
def Read.Seen (x : HackedSyscall K) (s : Recorded K) (log : List Invocation) (f : Read) : Prop :=
  match f.pc with
  | .alloc => True
  | .lookup _ => True
  | .getNr _ p => p = x.stats
  | .getDelay _ p => p = x.stats
  | .getUid _ p => p = x.stats
    ∧ ∃ inv ∈ log, f.cr.peakDelay = (K.jiffiesToMsecs inv.delay).toUInt64
      ∧ (s.st.sys.stats x.stats).peakUid = inv.euid
      ∧ (s.st.sys.stats x.stats).peakProgName.str = CString.truncate 15 inv.comm.toList
  | .getProgName _ p => p = x.stats
    ∧ ∃ inv ∈ log, f.cr.peakDelay = (K.jiffiesToMsecs inv.delay).toUInt64
      ∧ f.cr.peakUid = inv.euid
      ∧ (s.st.sys.stats x.stats).peakProgName.str = CString.truncate 15 inv.comm.toList
  | .done (.ok _) => ∃ inv ∈ log, f.cr.IsOf K inv
  | .done (.error _) => True

section Reader

variable {n : Fin K.nrSyscalls} {x : HackedSyscall K} {s s' : Recorded K}
  {log log' : List Invocation} {f f' : Read}

theorem Read.Seen.frame (h : f.Seen x s log) (hlog : ∀ inv ∈ log, inv ∈ log')
    (huid : f.pc.awaitsUid = true →
      (s'.st.sys.stats x.stats).peakUid = (s.st.sys.stats x.stats).peakUid)
    (hname : f.pc.awaitsName = true →
      (s'.st.sys.stats x.stats).peakProgName = (s.st.sys.stats x.stats).peakProgName)
    : f.Seen x s' log' := by
  obtain ⟨env, cr, pc⟩ := f
  cases pc with
  | getUid toRet p =>
    obtain ⟨hp, inv, hmem, hdelay, hu, hn⟩ := h
    exact ⟨hp, inv, hlog inv hmem, hdelay, by rw [huid rfl, hu], by rw [hname rfl, hn]⟩
  | getProgName toRet p =>
    obtain ⟨hp, inv, hmem, hdelay, hu, hn⟩ := h
    exact ⟨hp, inv, hlog inv hmem, hdelay, hu, by rw [hname rfl, hn]⟩
  | done res =>
    cases res with
    | ok toRet =>
      obtain ⟨inv, hmem, hinv⟩ := h
      exact ⟨inv, hlog inv hmem, hinv⟩
    | error e => trivial
  | _ => exact h

theorem Read.Seen.step (h : f.Seen x s log) (hlookup : s.st.sys.lookup n = some x)
    (hcoherent : ∀ toRet p, f.pc = .getDelay toRet p →
      ∃ inv ∈ log, (s.st.sys.stats x.stats).IsOf inv)
    (hs : f.step n s = some (s', f')) : f'.Seen x s' log := by
  obtain ⟨env, cr, pc⟩ := f
  cases pc with
  | alloc =>
    simp only [Read.step] at hs
    split at hs <;> cases hs <;> trivial
  | lookup toRet =>
    simp only [Read.step, hlookup] at hs
    cases hs
    exact rfl
  | getNr toRet p =>
    cases hs
    exact h
  | getDelay toRet p =>
    have hp : p = x.stats := h
    subst hp
    obtain ⟨inv, hmem, hinv⟩ := hcoherent toRet _ rfl
    cases hs
    exact ⟨rfl, inv, hmem, by simp [goto, hinv.delay], hinv.uid, hinv.progName⟩
  | getUid toRet p =>
    obtain ⟨rfl, inv, hmem, hdelay, huid, hname⟩ := h
    cases hs
    exact ⟨rfl, inv, hmem, hdelay, huid, hname⟩
  | getProgName toRet p =>
    obtain ⟨rfl, inv, hmem, hdelay, huid, hname⟩ := h
    have hcopy := Comm.str_strscpy_of_short cr.peakProgName hname
    simp only [Read.step] at hs
    generalize Comm.strscpy cr.peakProgName _ = name at hs hcopy
    cases hs
    exact ⟨inv, hmem, hdelay, huid, hcopy⟩
  | done res => cases hs

end Reader

theorem Update.Store.frame {u : Update} {p : Ptr} {old new : SyscallStats} {ev : List Invocation}
    (h : u.Store p old new ev) {pc : ReadPc}
    (hapart : (u.pc = .setUid p → pc.awaitsUid = false)
      ∧ (u.pc = .setProgName p → pc.awaitsName = false))
    : (pc.awaitsUid = true → new.peakUid = old.peakUid)
      ∧ (pc.awaitsName = true → new.peakProgName = old.peakProgName) := by
  cases h with
  | delay _ => exact ⟨fun _ => rfl, fun _ => rfl⟩
  | uid hpc =>
    refine ⟨fun hawaits => ?_, fun _ => rfl⟩
    rw [hapart.1 hpc] at hawaits
    contradiction
  | progName hpc _ =>
    have hname := hapart.2 hpc
    cases pc <;> simp [ReadPc.awaitsUid, ReadPc.awaitsName] at hname ⊢

structure ReadInv (x : HackedSyscall K) (r : Nat) (c : RecordCfg K) : Prop where
  updated : c.trace ≠ []
  seen : ∀ f, c.locals r = .read f → f.Seen x c.shared c.trace

theorem ReadInv.step {n : Fin K.nrSyscalls} {x : HackedSyscall K} {r : Nat} {c c' : RecordCfg K}
    {l : RecordLbl} (h : ReadInv x r c) (hO : (updateOutline n x).Holds c) (hc : Coherent x c)
    (hg : Apart r c l) (hs : (records K n).step c l = some c') : ReadInv x r c' := by
  obtain ⟨hlookup, hfacts⟩ := hO
  cases l with
  | env e => exact e.elim
  | run i ch =>
    obtain ⟨s, t, ev, heq, rfl⟩ := System.step_run hs
    refine ⟨by simp [h.updated], fun f hf => ?_⟩
    dsimp only at hf
    rw [Apart] at hg
    rcases StatThread.step_cases heq with ⟨hi, rfl, rfl, task, rfl⟩ | ⟨u, u', hi, rfl, h'⟩
      | ⟨g, g', hi, rfl, h', rfl⟩
    . by_cases hri : r = i
      . subst hri
        rw [Function.update_self] at hf
        cases task <;> cases hf
        trivial
      . rw [Function.update_of_ne hri] at hf
        exact h.seen f hf
    . have hri : r ≠ i := by
        rintro rfl
        simp at hf
      rw [Function.update_of_ne hri] at hf
      rw [hi] at hg
      have hu := hfacts i
      rw [hi] at hu
      have hlog : ∀ inv ∈ c.trace, inv ∈ ev ++ c.trace := fun _ => List.mem_append_right _
      obtain ⟨_, ⟨hsys, _⟩ | ⟨new, hstore, _, rfl, _⟩⟩ := Update.step_cases h' hlookup hu
      . exact (h.seen f hf).frame hlog (fun _ => by rw [hsys]) (fun _ => by rw [hsys])
      . obtain ⟨huid, hname⟩ := hstore.frame (hg f hf x.stats)
        have hnew : (c.shared.setStats x.stats new).st.sys.stats x.stats = new :=
          Function.update_self ..
        exact (h.seen f hf).frame hlog (by rwa [hnew]) (by rwa [hnew])
    . rw [hi] at hg
      obtain ⟨hsys, _⟩ := Read.step_frame h'
      by_cases hri : r = i
      . subst hri
        rw [Function.update_self] at hf
        cases hf
        refine (h.seen g hi).step hlookup (fun toRet p hpc => ?_) h'
        exact (hc (hg rfl toRet p hpc)).resolve_left h.updated
      . rw [Function.update_of_ne hri] at hf
        exact (h.seen f hf).frame (fun _ => id) (fun _ => by rw [hsys]) (fun _ => by rw [hsys])

/--
A read that begins after an update returns what one update has stored, as long as the loads and the
stores of the fields do not cross.
-/
theorem record_of_one_update {env : Env} {n : Fin K.nrSyscalls} {s : State K}
    (hreg : (registerSystemCall env (n : Nat) s).1 = 0) {c₀ c : RecordCfg K}
    (hrun₀ : (records K n).Reaches (recordRegistered env n s) c₀) (hupdated : c₀.trace ≠ [])
    {r : Nat} (hidle : c₀.locals r = .idle) (hrun : (records K n).Run (Apart r) c₀ c) {f : Read}
    (hf : c.locals r = .read f) {toRet : Ptr} (hdone : f.pc = .done (.ok toRet))
    : ∃ inv ∈ c.trace, f.cr.IsOf K inv := by
  obtain ⟨x, hlookup, _⟩ := lookup_registerSystemCall hreg
  have hO : (updateOutline n x).Holds c₀ ∧ Coherent x c₀ := by
    refine hrun₀.invariant (I := fun c => (updateOutline n x).Holds c ∧ Coherent x c) ?_ ?_
    . exact ⟨⟨hlookup, fun _ => trivial⟩, fun _ => .inl rfl⟩
    . exact fun _ _ _ h _ hs => ⟨(updateOutline n x).holds_step h.1 trivial hs, h.2.step h.1 hs⟩
  have hinv : ((updateOutline n x).Holds c ∧ Coherent x c) ∧ ReadInv x r c := by
    refine hrun.invariant
      (I := fun c => ((updateOutline n x).Holds c ∧ Coherent x c) ∧ ReadInv x r c)
      ⟨hO, hupdated, fun f hf => by simp [hidle] at hf⟩ ?_
    rintro c l c' ⟨⟨hO, hc⟩, hr⟩ hg hs
    exact ⟨⟨(updateOutline n x).holds_step hO trivial hs, hc.step hO hs⟩, hr.step hO hc hg hs⟩
  have hseen := hinv.2.seen f hf
  obtain ⟨env, cr, pc⟩ := f
  cases hdone
  exact hseen

section Sequential

variable {n : Fin K.nrSyscalls} {i : Nat} {trace : List Invocation}

def Read.returned (env : Env) : Except Int (Ptr × SyscallCr) → Read
  | .error e => { env, cr := env.junk.syscallCr, pc := .done (.error e) }
  | .ok (toRet, cr) => { env, cr, pc := .done (.ok toRet) }

theorem read_sequential (env : Env) (st : State K) (lock : Option Nat)
    : (records K n).Solo i Choice.Unsignalled ⟨st, lock⟩ (StatTask.read env).thread trace
        ⟨(getSyscallStats env (n : Nat) st).2, lock⟩
        (.read (.returned env (getSyscallStats env (n : Nat) st).1)) trace := by
  unfold getSyscallStats StatTask.thread
  rw [arrayIndexNospec_coe]
  cases hk : st.heap.kmalloc (env.kmalloc 0 40) 40 with
  | mk toRet heap =>
    cases toRet with
    | none =>
      refine .head .go trivial (by simp only [records, StatThread.step, Read.step, hk]; rfl) ?_
      exact .refl
    | some toRet =>
      dsimp only
      refine .head .go trivial (by simp only [records, StatThread.step, Read.step, hk]; rfl) ?_
      cases hl : st.sys.lookup n with
      | none =>
        refine .head .go trivial
          (by simp only [records, StatThread.step, Read.step, Read.goto, hl]; rfl) ?_
        exact .refl
      | some curr =>
        refine .head .go trivial
          (by simp only [records, StatThread.step, Read.step, Read.goto, hl]; rfl) ?_
        refine .head .go trivial rfl ?_
        refine .head .go trivial rfl ?_
        refine .head .go trivial rfl ?_
        refine .head .go trivial rfl ?_
        exact .refl

theorem update_sequential (s : Shared K) (inv : Invocation) {x : HackedSyscall K}
    (hlookup : s.st.sys.lookup n = some x) (hlt : (s.st.sys.stats x.stats).peakDelay < inv.delay)
    : (records K n).Solo i Choice.Unsignalled ⟨s.st, none⟩ (StatTask.update inv).thread trace
        ⟨(Wrapper.updateStats s x.stats
          { Wrapper.initial { origAx := n, args := [] } inv.euid inv.comm with
            delay := inv.delay }).st, none⟩
        (.update ⟨inv, .done⟩) (inv :: trace) := by
  refine .head .go trivial
    (by simp only [records, StatTask.thread, StatThread.step, Update.step, hlookup]; rfl) ?_
  refine .head .go trivial
    (by simp only [records, StatThread.step, Update.step, Update.goto, if_pos hlt]; rfl) ?_
  refine .head .go trivial rfl ?_
  refine .head .go trivial rfl ?_
  refine .head .go trivial rfl ?_
  refine .head .go trivial rfl ?_
  refine .head .go trivial rfl ?_
  simp only [Recorded.setStats, Update.goto, Function.update_self, Function.update_idem,
    List.nil_append, List.cons_append, Wrapper.updateStats, Shared.setSys, Wrapper.initial]
  exact .refl

end Sequential

def recordRun (g : RecordCfg Platform.sample → RecordLbl → Bool) (c : RecordCfg Platform.sample)
    (ls : List RecordLbl) : Option (RecordCfg Platform.sample) :=
  (records Platform.sample sampleNr).exec g c ls

def sampleRecord : RecordCfg Platform.sample :=
  recordRegistered Env.sample sampleNr (State.loaded _ SyscallTable.sample (fun _ => .zero) 0)

def updateCall (i : Nat) (delay : UInt64) (euid : UInt32) : RecordLbl :=
  .run i (.start (.update ⟨delay, euid, Comm.ofBytes []⟩))

def recordSteps (i k : Nat) : List RecordLbl :=
  List.replicate k (.run i .go)

def firstUpdate : List RecordLbl :=
  updateCall 0 10 1000 :: recordSteps 0 7

theorem isSome_firstUpdate : (recordRun (fun _ _ => true) sampleRecord firstUpdate).isSome := by
  decide

def sampleUpdated : RecordCfg Platform.sample :=
  (recordRun (fun _ _ => true) sampleRecord firstUpdate).get isSome_firstUpdate

def readCall (i : Nat) : RecordLbl :=
  .run i (.start (.read Env.sample))

def readsAlone (c : RecordCfg K) : RecordLbl → Bool
  | .env _ => true
  | .run i _ =>
    match c.locals i with
    | .idle => true
    | .read _ => c.shared.statsLock = none
    | .update _ => false

theorem apart_of_readsAlone {n : Fin K.nrSyscalls} {x : HackedSyscall K} {r : Nat}
    {c : RecordCfg K} {l : RecordLbl} (hO : (updateOutline n x).Holds c)
    (h : readsAlone c l = true) : Apart r c l := by
  cases l with
  | env e => trivial
  | run i ch =>
    rw [Apart]
    split
    . trivial
    . next f hi =>
      have hfree : c.shared.statsLock = none := by simpa [readsAlone, hi] using h
      intro _ _ _ _ j u hj
      have hu := hO.2 j
      rw [hj] at hu
      obtain ⟨inv, pc⟩ := u
      -- an update that is midway owns the lock
      cases pc with
      | setUid p =>
        have hown : c.shared.statsLock = some j := hu.2.1
        simp [hfree] at hown
      | setProgName p =>
        have hown : c.shared.statsLock = some j := hu.2.1
        simp [hfree] at hown
      | _ => rfl
    . next u hi => simp [readsAlone, hi] at h

def fullRead : List RecordLbl :=
  readCall 1 :: recordSteps 1 6

theorem isSome_fullRead : (recordRun readsAlone sampleUpdated fullRead).isSome := by
  decide

theorem record_of_one_update_fullRead
    : ∃ (c : RecordCfg Platform.sample) (f : Read), c.locals 1 = .read f
      ∧ ∃ inv ∈ c.trace, f.cr.IsOf Platform.sample inv := by
  have hreg : (registerSystemCall Env.sample (sampleNr : Nat)
      (State.loaded Platform.sample SyscallTable.sample (fun _ => .zero) 0)).1 = 0 := by
    decide
  have hrun₀ := (System.run_exec_get isSome_firstUpdate).reaches
  obtain ⟨x, hlookup, _⟩ := lookup_registerSystemCall hreg
  have hO : (updateOutline sampleNr x).Holds sampleUpdated :=
    (updateOutline sampleNr x).holds_of_run hrun₀ ⟨hlookup, fun _ => trivial⟩
  have hrun : (records Platform.sample sampleNr).Run (Apart 1) sampleUpdated
      ((recordRun readsAlone sampleUpdated fullRead).get isSome_fullRead) :=
    ((System.run_exec_get isSome_fullRead).with_invariant hO
      fun _ _ _ h _ hs => (updateOutline sampleNr x).holds_step h trivial hs).mono
      fun _ _ h => apart_of_readsAlone h.2 h.1
  exact ⟨_, _, rfl, record_of_one_update hreg hrun₀ (by decide) rfl hrun rfl rfl⟩

/-- Call 1 loads the delay, call 2 raises the peak to 20, and call 1 loads the uid and the name. -/
def crossedRead : List RecordLbl :=
  readCall 1 :: recordSteps 1 4 ++ (updateCall 2 20 1001 :: recordSteps 2 7) ++ recordSteps 1 2

theorem isSome_crossedRead : (recordRun (fun _ _ => true) sampleUpdated crossedRead).isSome := by
  decide

theorem record_of_two_updates
    : (records Platform.sample sampleNr).Reaches sampleRecord sampleUpdated
      ∧ sampleUpdated.trace ≠ [] ∧ sampleUpdated.locals 1 = .idle
      ∧ ∃ (c : RecordCfg Platform.sample) (f : Read) (toRet : Ptr),
        (records Platform.sample sampleNr).Reaches sampleUpdated c ∧ c.locals 1 = .read f
          ∧ f.pc = .done (.ok toRet) ∧ f.cr.peakDelay = 40 ∧ f.cr.peakUid = 1001
          ∧ ∀ inv ∈ c.trace, ¬f.cr.IsOf Platform.sample inv := by
  refine ⟨(System.run_exec_get isSome_firstUpdate).reaches, by decide, rfl, _, _, _,
    (System.run_exec_get isSome_crossedRead).reaches, rfl, rfl, by decide, by decide, ?_⟩
  intro inv hmem h
  have htrace : inv ∈ [⟨20, 1001, Comm.ofBytes []⟩, ⟨10, 1000, Comm.ofBytes []⟩] := hmem
  rcases List.mem_pair.mp htrace with rfl | rfl
  . exact absurd h.delay (by decide)
  . exact absurd h.uid (by decide)

end Throttling

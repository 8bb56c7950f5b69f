import SyscallThrottling.Impl.Usctm
import SyscallThrottling.Lemmas.Vtpmo
import SyscallThrottling.Lib.FirstMatch

/-!
This module contains the proof that `syscall_table_finder` goes through its range without a page
fault, and stops at the first address that looks like the syscall table.
-/

namespace Throttling

open FirstMatch

namespace Space

variable {sp : Space} {addr page ni : UInt64} {g : Usctm}

/--
The free entries of the array at `addr` hold the same address `ni` of kernel code, and no entry in
front of them does.
-/
structure Pattern (sp : Space) (addr ni : UInt64) : Prop where
  first : sp.word addr FIRST_NI_SYSCALL = some ni
  aligned : ni &&& 0x3 = 0
  kernel : ni > 0xffffffff00000000
  same : ∀ i ∈ otherNiSyscalls, sp.word addr i = some ni
  others : ∀ i, 1 ≤ i → i < FIRST_NI_SYSCALL → ∃ x, sp.word addr i = some x ∧ x ≠ ni

/-- What the search is for: an aligned address that is mapped, with the pattern of free entries. -/
def LooksLikeTable (sp : Space) (a : Nat) : Prop :=
  8 ∣ a ∧ (sp.translate (UInt64.ofNat a)).isSome ∧ ∃ ni, sp.Pattern (UInt64.ofNat a) ni

section Matching

theorem goodAreaFrom_eq_true (hni : sp.word addr FIRST_NI_SYSCALL = some ni) (left i : Nat)
    : sp.goodAreaFrom addr left i = some true
        ↔ ∀ j, i ≤ j → j < i + left → ∃ x, sp.word addr j = some x ∧ x ≠ ni := by
  induction left generalizing i with
  | zero =>
    simp only [goodAreaFrom, true_iff]
    intro j hj hj'
    omega
  | succ left ih =>
    cases hx : sp.word addr i with
    | none =>
      simp only [goodAreaFrom, hx, Option.bind_eq_bind, Option.bind_none, reduceCtorEq, false_iff]
      intro h
      obtain ⟨x, hx', _⟩ := h i (by omega) (by omega)
      simp [hx] at hx'
    | some x =>
      simp only [goodAreaFrom, hx, hni, Option.bind_eq_bind, Option.bind_some]
      by_cases heq : x = ni
      . simp only [heq, ↓reduceIte, Option.pure_def, Option.some.injEq, Bool.false_eq_true,
          false_iff]
        intro h
        obtain ⟨y, hy, hne⟩ := h i (by omega) (by omega)
        rw [hx, heq] at hy
        cases hy
        exact hne rfl
      . rw [if_neg heq, ih]
        constructor
        . intro h j hj hj'
          by_cases hji : j = i
          . rw [hji]
            exact ⟨x, hx, heq⟩
          . apply h j (by omega) (by omega)
        . intro h j hj hj'
          apply h j (by omega) (by omega)

theorem sameEntries_eq_true (hni : sp.word addr FIRST_NI_SYSCALL = some ni) (is : List Nat)
    : sp.sameEntries addr is = some true ↔ ∀ i ∈ is, sp.word addr i = some ni := by
  induction is with
  | nil => simp [sameEntries]
  | cons i is ih =>
    cases hx : sp.word addr i with
    | none => simp [sameEntries, hx, hni]
    | some x =>
      simp only [sameEntries, hx, hni, Option.bind_eq_bind, Option.bind_some, List.mem_cons,
        forall_eq_or_imp]
      by_cases heq : ni = x
      . rw [if_pos heq, ih, heq]
        simp
      . rw [if_neg heq]
        simp [Ne.symm heq]

theorem Pattern.isTable (h : sp.Pattern addr ni) : sp.isTable addr = some true := by
  have hne : ni ≠ 0 := by
    intro h0
    have hkernel := h.kernel
    rw [h0] at hkernel
    exact absurd hkernel (by decide)
  have hsame := (sameEntries_eq_true h.first _).mpr h.same
  have hgood : sp.goodArea addr = some true := by
    apply (goodAreaFrom_eq_true h.first _ _).mpr
    intro j hj hj'
    apply h.others j hj
    simp only [FIRST_NI_SYSCALL] at hj' ⊢
    omega
  simp only [Space.isTable, h.first, Option.bind_eq_bind, Option.bind_some]
  rw [if_pos ⟨h.aligned, hne, h.kernel⟩, hsame]
  exact hgood

theorem exists_pattern_of_isTable (h : sp.isTable addr = some true) : ∃ ni, sp.Pattern addr ni := by
  cases hni : sp.word addr FIRST_NI_SYSCALL with
  | none => simp [Space.isTable, hni] at h
  | some ni =>
    simp only [Space.isTable, hni, Option.bind_eq_bind, Option.bind_some] at h
    split at h
    . next hcond =>
      cases hsame : sp.sameEntries addr otherNiSyscalls with
      | none => simp [hsame] at h
      | some b =>
        cases b with
        | false => simp [hsame] at h
        | true =>
          simp only [hsame, Option.bind_some, if_true] at h
          refine ⟨ni, hni, hcond.1, hcond.2.2, (sameEntries_eq_true hni _).mp hsame, ?_⟩
          intro i hi hi'
          apply (goodAreaFrom_eq_true hni _ _).mp h i hi
          simp only [FIRST_NI_SYSCALL] at hi' ⊢
          omega
    . simp at h

theorem isSome_goodAreaFrom (h : ∀ i, i ≤ SEVENTH_NI_SYSCALL → (sp.word addr i).isSome)
    (left i : Nat) (hi : i + left ≤ SEVENTH_NI_SYSCALL) : (sp.goodAreaFrom addr left i).isSome := by
  induction left generalizing i with
  | zero => rfl
  | succ left ih =>
    obtain ⟨x, hx⟩ := Option.isSome_iff_exists.mp (h i (by omega))
    obtain ⟨ni, hni⟩ := Option.isSome_iff_exists.mp (h FIRST_NI_SYSCALL (by decide))
    simp only [goodAreaFrom, hx, hni, Option.bind_eq_bind, Option.bind_some]
    split
    . rfl
    . apply ih
      omega

theorem isSome_sameEntries (h : ∀ i, i ≤ SEVENTH_NI_SYSCALL → (sp.word addr i).isSome)
    (is : List Nat) (his : ∀ i ∈ is, i ≤ SEVENTH_NI_SYSCALL) : (sp.sameEntries addr is).isSome := by
  induction is with
  | nil => rfl
  | cons i is ih =>
    obtain ⟨x, hx⟩ := Option.isSome_iff_exists.mp (h i (his i List.mem_cons_self))
    obtain ⟨ni, hni⟩ := Option.isSome_iff_exists.mp (h FIRST_NI_SYSCALL (by decide))
    simp only [sameEntries, hx, hni, Option.bind_eq_bind, Option.bind_some]
    split
    . apply ih
      intro j hj
      apply his j (List.mem_cons_of_mem _ hj)
    . rfl

theorem isSome_isTable (h : ∀ i, i ≤ SEVENTH_NI_SYSCALL → (sp.word addr i).isSome)
    : (sp.isTable addr).isSome := by
  obtain ⟨ni, hni⟩ := Option.isSome_iff_exists.mp (h FIRST_NI_SYSCALL (by decide))
  simp only [Space.isTable, hni, Option.bind_eq_bind, Option.bind_some]
  split
  . obtain ⟨b, hb⟩ := Option.isSome_iff_exists.mp
      (isSome_sameEntries h otherNiSyscalls (by decide))
    rw [hb]
    cases b with
    | false => rfl
    | true =>
      apply isSome_goodAreaFrom h
      decide
  . rfl

end Matching

section Search

/-- No page has a frame number that reads as `NO_MAP` once it is cut to an `int`. -/
def FitsInt (sp : Space) : Prop :=
  ∀ a p, sp.translate a = some p → p / 4096 % 2 ^ 32 ≠ 2 ^ 32 - 1

def foundAt (sp : Space) (g : Usctm) : Option Nat → Usctm
  | none => g
  | some a => .record (UInt64.ofNat a) ((sp.word (UInt64.ofNat a) FIRST_NI_SYSCALL).getD 0)

theorem toNat_slot (addr : UInt64) (i : Nat) (h : addr.toNat + 8 * i < 2 ^ 64)
    : (addr + 8 * UInt64.ofNat i).toNat = addr.toNat + 8 * i := by
  simp only [UInt64.toNat_add, UInt64.toNat_mul, UInt64.toNat_ofNat', UInt64.reduceToNat]
  omega

theorem canonical_of_start (h : START.toNat ≤ addr.toNat) : Canonical addr := by
  rw [canonical_iff]
  simp only [START, UInt64.reduceToNat] at h
  omega

theorem isSome_word (i : Nat) (hc : Canonical (addr + 8 * UInt64.ofNat i))
    : (sp.word addr i).isSome = (sp.leaf (addr + 8 * UInt64.ofNat i)).isSome := by
  rw [word, Option.isSome_map, isSome_translate hc]

theorem isSome_leaf_iff_mapped (hreg : sp.Regular addr) (hc : Canonical addr) (hfit : sp.FitsInt)
    : (sp.leaf addr).isSome ↔ sp.sysVtpmo addr ≠ NO_MAP := by
  constructor
  . intro hleaf hmap
    obtain ⟨⟨l, e⟩, hl⟩ := Option.isSome_iff_exists.mp hleaf
    rw [sysVtpmo_of_leaf hreg hl, toInt_eq_noMap_iff] at hmap
    obtain ⟨_, rfl | ⟨rfl, hlarge⟩⟩ := exists_entry hreg hl
    . apply hfit addr _ (translate_of_leaf hc hl)
      rw [div_of_small]
      exact hmap
    . exact frame_ne_of_large hlarge hmap
  . intro hmap
    apply isSome_leaf_of_mapped hreg hmap

structure InPage (page i : UInt64) (left : Nat) : Prop where
  kernel : START.toNat ≤ page.toNat
  start : page.toNat % 4096 = 0
  room : page.toNat + 8192 ≤ 2 ^ 64
  offset : i.toNat + 8 * left = 4096

def newPage (page i : UInt64) : UInt64 :=
  page + i + UInt64.ofNat SEVENTH_NI_SYSCALL * 8

variable {i : UInt64} {left : Nat}

namespace InPage

theorem toNat_add (h : InPage page i left) : (page + i).toNat = page.toNat + i.toNat := by
  have := h.room
  have := h.offset
  rw [UInt64.toNat_add]
  omega

theorem toNat_newPage (h : InPage page i left)
    : (newPage page i).toNat = page.toNat + i.toNat + 1888 := by
  have := h.room
  have := h.offset
  have hsize : (UInt64.ofNat SEVENTH_NI_SYSCALL * 8).toNat = 1888 := by decide
  rw [newPage, UInt64.toNat_add, h.toNat_add, hsize]
  omega

theorem crosses_iff (h : InPage page i left)
    : page + PAGE_SIZE = newPage page i &&& ADDRESS_MASK
        ↔ (newPage page i).toNat / 4096 = page.toNat / 4096 + 1 := by
  have hstart := h.start
  have hroom := h.room
  have hpage : (page + PAGE_SIZE).toNat = page.toNat + 4096 := by
    rw [UInt64.toNat_add, show PAGE_SIZE.toNat = 4096 by rfl]
    omega
  rw [← UInt64.toNat_inj, hpage, Word.toNat_and_high 12 (by decide) (by decide)]
  omega

theorem next (h : InPage page i (left + 1)) : InPage page (i + 8) left where
  kernel := h.kernel
  start := h.start
  room := h.room
  offset := by
    have := h.offset
    simp only [UInt64.toNat_add, UInt64.reduceToNat]
    omega

theorem isSome_words (h : InPage page i (left + 1)) (hpage : (sp.leaf page).isSome)
    (hnew : (newPage page i).toNat / 4096 = page.toNat / 4096 + 1 →
      (sp.leaf (newPage page i)).isSome)
    (j : Nat) (hj : j ≤ SEVENTH_NI_SYSCALL) : (sp.word (page + i) j).isSome := by
  have hstart := h.start
  have hroom := h.room
  have hoffset := h.offset
  have hsum := h.toNat_add
  have hlast := h.toNat_newPage
  have hj : j ≤ 236 := hj
  have hslot := toNat_slot (page + i) j (by omega)
  rw [hsum] at hslot
  have hc : Canonical (page + i + 8 * UInt64.ofNat j) := by
    apply canonical_of_start
    have := h.kernel
    omega
  rw [isSome_word j hc]
  by_cases hsame : (page + i + 8 * UInt64.ofNat j).toNat / 4096 = page.toNat / 4096
  . rw [leaf_congr hsame]
    exact hpage
  . have hcross : (newPage page i).toNat / 4096 = page.toNat / 4096 + 1 := by omega
    rw [leaf_congr (b := newPage page i) (by omega)]
    exact hnew hcross

theorem ofNat_add (h : InPage page i (left + 1))
    : UInt64.ofNat (page.toNat + i.toNat) = page + i := by
  rw [← h.toNat_add, UInt64.ofNat_toNat]

theorem looksLikeTable_iff (h : InPage page i (left + 1)) {b : Bool}
    (hwords : ∀ j, j ≤ SEVENTH_NI_SYSCALL → (sp.word (page + i) j).isSome)
    (hb : sp.isTable (page + i) = some b)
    : sp.LooksLikeTable (page.toNat + i.toNat) ↔ b = true := by
  have hmapped : (sp.translate (page + i)).isSome := by
    have hzero := hwords 0 (by decide)
    rw [word, Option.isSome_map] at hzero
    simpa using hzero
  have hdvd : 8 ∣ page.toNat + i.toNat := by
    have := h.start
    have := h.offset
    omega
  rw [LooksLikeTable, h.ofNat_add]
  constructor
  . rintro ⟨_, _, ni, hpat⟩
    rw [hpat.isTable] at hb
    simpa using hb.symm
  . rintro rfl
    exact ⟨hdvd, hmapped, exists_pattern_of_isTable hb⟩

/-- Where the last entry is not mapped, there is no table, and none behind it in the page. -/
theorem not_looksLikeTable (h : InPage page i (left + 1))
    (hcross : (newPage page i).toNat / 4096 = page.toNat / 4096 + 1)
    (hnew : ¬(sp.leaf (newPage page i)).isSome) {a : Nat} (hlo : page.toNat + i.toNat ≤ a)
    (hhi : a < page.toNat + 4096) : ¬sp.LooksLikeTable a := by
  rintro ⟨_, _, ni, hpat⟩
  have hlast := h.toNat_newPage
  have hstart := h.start
  have hroom := h.room
  have hoffset := h.offset
  have ha : (UInt64.ofNat a).toNat = a := by
    rw [UInt64.toNat_ofNat']
    omega
  have hword := hpat.same SEVENTH_NI_SYSCALL (by decide)
  have hsome : (sp.word (UInt64.ofNat a) SEVENTH_NI_SYSCALL).isSome := by
    rw [hword]
    rfl
  have hslot := toNat_slot (UInt64.ofNat a) SEVENTH_NI_SYSCALL (by
    rw [ha]
    simp only [SEVENTH_NI_SYSCALL]
    omega)
  rw [ha] at hslot
  simp only [SEVENTH_NI_SYSCALL] at hslot
  have hc : Canonical (UInt64.ofNat a + 8 * UInt64.ofNat 236) := by
    apply canonical_of_start
    have := h.kernel
    omega
  rw [SEVENTH_NI_SYSCALL, isSome_word 236 hc, leaf_congr (b := newPage page i) (by omega)] at hsome
  exact hnew hsome

end InPage

/--
The search of an interval has come to an end without a page fault: what it reports looks like a
table, and is the first to do so if the frame numbers can be told from `NO_MAP`.
-/
structure Searched (sp : Space) (lo hi : Nat) (r : Option Nat) : Prop where
  sound : ∀ a, r = some a → lo ≤ a ∧ a < hi ∧ sp.LooksLikeTable a
  first : sp.FitsInt → Found sp.LooksLikeTable lo hi r

namespace Searched

variable {lo mid hi : Nat} {r : Option Nat}

theorem empty (h : hi ≤ lo) : sp.Searched lo hi none where
  sound := by simp
  first _ := .empty h

theorem skip (hskip : sp.FitsInt → ∀ a, lo ≤ a → a < mid → ¬sp.LooksLikeTable a) (hle : lo ≤ mid)
    (h : sp.Searched mid hi r) : sp.Searched lo hi r where
  sound a ha := by
    obtain ⟨hlo, hhi, htable⟩ := h.sound a ha
    exact ⟨by omega, hhi, htable⟩
  first hfit := (h.first hfit).skip (hskip hfit) hle

theorem extend {a : Nat} (h : sp.Searched lo mid (some a)) (hle : mid ≤ hi)
    : sp.Searched lo hi (some a) where
  sound b hb := by
    obtain ⟨hlo, hhi, htable⟩ := h.sound b hb
    exact ⟨hlo, by omega, htable⟩
  first hfit := (h.first hfit).extend hle

theorem head (hlt : lo < hi) (h : sp.LooksLikeTable lo) : sp.Searched lo hi (some lo) where
  sound a ha := by
    cases ha
    exact ⟨Nat.le_refl lo, hlt, h⟩
  first _ := .head hlt h

end Searched

/-- The tables that the search looks into are of the kind `sys_vtpmo` is made for. -/
def RegularFrom (sp : Space) : Prop :=
  ∀ a : UInt64, START ≤ a → sp.Regular a

theorem RegularFrom.mapped_iff (h : sp.RegularFrom) (hfit : sp.FitsInt) (ha : START ≤ addr)
    : (sp.leaf addr).isSome ↔ sp.sysVtpmo addr ≠ NO_MAP :=
  isSome_leaf_iff_mapped (h addr ha) (canonical_of_start ha) hfit

theorem validatePageFrom_spec (hreg : sp.RegularFrom) (hstart : START ≤ page)
    (hpage : (sp.leaf page).isSome) (g : Usctm) (left : Nat) (i : UInt64) (h : InPage page i left)
    : ∃ r, sp.Searched (page.toNat + i.toNat) (page.toNat + 4096) r
        ∧ sp.validatePageFrom page g left i = some (r.isSome, sp.foundAt g r) := by
  induction left generalizing i with
  | zero =>
    have := h.offset
    exact ⟨none, .empty (by omega), rfl⟩
  | succ left ih =>
    have hoffset := h.offset
    have hlast := h.toNat_newPage
    have hsum := h.toNat_add
    have hge : START ≤ newPage page i := by
      rw [UInt64.le_iff_toNat_le] at hstart ⊢
      omega
    simp only [validatePageFrom, ← newPage.eq_1]
    by_cases hbreak : page + PAGE_SIZE = newPage page i &&& ADDRESS_MASK
        ∧ sp.sysVtpmo (newPage page i) = NO_MAP
    . refine ⟨none, ⟨by simp, ?_⟩, if_pos hbreak⟩
      intro hfit a hlo hhi
      have hcross := h.crosses_iff.mp hbreak.1
      apply h.not_looksLikeTable hcross _ hlo hhi
      rw [hreg.mapped_iff hfit hge, not_not]
      exact hbreak.2
    . have hwords : ∀ j, j ≤ SEVENTH_NI_SYSCALL → (sp.word (page + i) j).isSome := by
        apply h.isSome_words hpage
        intro hcross
        apply isSome_leaf_of_mapped (hreg _ hge)
        intro hmap
        exact hbreak ⟨h.crosses_iff.mpr hcross, hmap⟩
      obtain ⟨b, hb⟩ := Option.isSome_iff_exists.mp (isSome_isTable hwords)
      have htable := h.looksLikeTable_iff hwords hb
      rw [if_neg hbreak, hb, Option.bind_eq_bind, Option.bind_some]
      cases b with
      | true =>
        obtain ⟨ni, hni⟩ := Option.isSome_iff_exists.mp (hwords FIRST_NI_SYSCALL (by decide))
        refine ⟨some (page.toNat + i.toNat), .head (by omega) (htable.mpr rfl), ?_⟩
        rw [if_pos rfl, hni, foundAt, h.ofNat_add, hni]
        rfl
      | false =>
        have hi : (i + 8).toNat = i.toNat + 8 := by
          simp only [UInt64.toNat_add, UInt64.reduceToNat]
          omega
        obtain ⟨r, hr, hrun⟩ := ih (i + 8) h.next
        refine ⟨r, ?_, hrun⟩
        rw [hi] at hr
        refine hr.skip ?_ (by omega)
        -- the addresses up to the next candidate are not aligned
        intro _ a hlo hhi ha
        have heq : a = page.toNat + i.toNat := by
          have := ha.1
          have := h.start
          omega
        rw [heq, htable] at ha
        cases ha

theorem validatePage_spec (hreg : sp.RegularFrom) (hstart : START ≤ page)
    (hpage : (sp.leaf page).isSome) (halign : page.toNat % 4096 = 0)
    (hroom : page.toNat + 8192 ≤ 2 ^ 64) (g : Usctm)
    : ∃ r, sp.Searched page.toNat (page.toNat + 4096) r
        ∧ sp.validatePage page g = some (r.isSome, sp.foundAt g r) := by
  apply validatePageFrom_spec hreg hstart hpage g 512 0
  exact ⟨hstart, halign, hroom, by simp⟩

theorem syscallTableFinderFrom_spec (hreg : sp.RegularFrom) (g : Usctm) (left : Nat) (k : UInt64)
    (hstart : START ≤ k) (halign : k.toNat % 4096 = 0)
    (hend : k.toNat + 4096 * left = MAX_ADDR.toNat)
    : ∃ r, sp.Searched k.toNat MAX_ADDR.toNat r
        ∧ sp.syscallTableFinderFrom g left k = some (sp.foundAt g r) := by
  have hmax : MAX_ADDR.toNat = 2 ^ 64 - 2 ^ 20 := by decide
  induction left generalizing k with
  | zero => exact ⟨none, .empty (by omega), rfl⟩
  | succ left ih =>
    have hk : (k + 4096).toNat = k.toNat + 4096 := by
      simp only [UInt64.toNat_add, UInt64.reduceToNat]
      omega
    have hstart' : START ≤ k + 4096 := by
      rw [UInt64.le_iff_toNat_le] at hstart ⊢
      omega
    obtain ⟨r', hr', hrun'⟩ := ih (k + 4096) hstart' (by omega) (by omega)
    rw [hk] at hr'
    simp only [syscallTableFinderFrom]
    by_cases hmap : sp.sysVtpmo k ≠ NO_MAP
    . have hleaf := isSome_leaf_of_mapped (hreg k hstart) hmap
      obtain ⟨r, hr, hrun⟩ := validatePage_spec hreg hstart hleaf halign (by omega) g
      rw [if_pos hmap, hrun, Option.bind_eq_bind, Option.bind_some]
      cases r with
      | none => exact ⟨r', hr'.skip hr.first (by omega), hrun'⟩
      | some a => exact ⟨some a, hr.extend (by omega), rfl⟩
    . rw [if_neg hmap]
      refine ⟨r', hr'.skip ?_ (by omega), hrun'⟩
      -- a table would have to start in this page, which is not mapped
      intro hfit a hlo hhi ha
      rw [← hreg.mapped_iff hfit hstart] at hmap
      have hlt : a < 2 ^ 64 := by omega
      have hpage : (UInt64.ofNat a).toNat / 4096 = k.toNat / 4096 := by
        rw [UInt64.toNat_ofNat', Nat.mod_eq_of_lt hlt]
        omega
      have hstarts := ha.2.1
      have hc : Canonical (UInt64.ofNat a) := (canonical_of_start hstart).congr hpage
      rw [isSome_translate hc, leaf_congr hpage] at hstarts
      exact hmap hstarts

end Search

/--
The search never runs into a page fault. What it reports looks like a table; and it is the first
address of the range that does, if there is any, unless there are pages whose frame number reads as
`NO_MAP`.
-/
theorem syscallTableFinder_spec (hreg : sp.RegularFrom) (g : Usctm)
    : ∃ r, sp.syscallTableFinder g = some (sp.foundAt g r)
        ∧ (∀ a, r = some a → START.toNat ≤ a ∧ a < MAX_ADDR.toNat ∧ sp.LooksLikeTable a)
        ∧ (sp.FitsInt → Found sp.LooksLikeTable START.toNat MAX_ADDR.toNat r) := by
  have hcount : START.toNat + 4096 * ((MAX_ADDR - START) / 4096).toNat = MAX_ADDR.toNat := by decide
  obtain ⟨r, hr, hrun⟩ := syscallTableFinderFrom_spec hreg g _ START (by decide) (by decide) hcount
  exact ⟨r, hrun, hr.sound, hr.first⟩

theorem sample_fitsInt : sample.FitsInt := by
  intro a p hp
  have hc : Canonical a := by
    by_contra hc
    rw [translate, if_neg hc] at hp
    cases hp
  rcases sample_leaf a with h | h
  . rw [translate, if_pos hc, h] at hp
    cases hp
  . have hbase : ((0x200083 : UInt64) &&& HW_ADDRESS_MASK).toNat = 2 ^ 21 := by decide
    rw [translate_of_leaf hc h, hbase, show leafSize 1 = 2 ^ 21 from rfl] at hp
    cases hp
    omega

theorem syscallTableFinder_sample
    : ∃ r, sample.syscallTableFinder .initial = some (sample.foundAt .initial r)
        ∧ (∀ a, r = some a → START.toNat ≤ a ∧ a < MAX_ADDR.toNat ∧ sample.LooksLikeTable a)
        ∧ (sample.FitsInt → Found sample.LooksLikeTable START.toNat MAX_ADDR.toNat r) :=
  syscallTableFinder_spec (fun a _ => sample_regular a) .initial

example : sample.syscallTableFinder .initial = some (.record START 0xffffffff81000000) := by
  decide +kernel

end Space

end Throttling

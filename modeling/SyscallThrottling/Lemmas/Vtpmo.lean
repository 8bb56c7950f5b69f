import SyscallThrottling.Impl.Vtpmo
import SyscallThrottling.Lib.Word

/-!
This module contains the proof that `sys_vtpmo` says of an address what the processor makes of it.
-/

namespace Throttling

open TableWalk

namespace Space

variable {sp : Space} {a b : UInt64} {l : Nat} {table e : UInt64}

/--
An entry of a table of level `l` that, if present, has none of bits 52 to 62 set (protection keys,
ignored and reserved bits), maps no page of 1 GiB, and leaves the reserved bits of a page of 2 MiB
clear.
-/
def Plain (l : Nat) (e : UInt64) : Prop :=
  e &&& VALID ≠ 0 → e &&& 0x7ff0000000000000 = 0
    ∧ (l = 2 → e &&& LH_MAPPING = 0)
    ∧ (l = 1 → e &&& LH_MAPPING ≠ 0 → e &&& 0x1fe000 = 0)

instance (l : Nat) (e : UInt64) : Decidable (Plain l e) :=
  inferInstanceAs (Decidable (_ → _ ∧ _ ∧ _))

/-- The tables that the walk to `a` passes are of the kind `sys_vtpmo` is made for. -/
structure Regular (sp : Space) (a : UInt64) : Prop where
  root : sp.cr3 &&& 0xfff0000000000000 = 0
  along : Along sp.cpuTables (fun l table => Plain l (sp.entry table (index l a))) a 4
    (sp.cr3 &&& HW_ADDRESS_MASK)

def vtpmoSlot (l : Nat) (e : UInt64) : Slot UInt64 UInt64 :=
  if e &&& VALID = 0 then
    .absent
  else if l = 0 ∨ (l = 1 ∧ e &&& LH_MAPPING ≠ 0) then
    .leaf (e &&& PT_ADDRESS_MASK)
  else
    .table (e &&& PT_ADDRESS_MASK)

def vtpmoTables (sp : Space) : Tables UInt64 UInt64 UInt64 where
  slot l table vaddr := vtpmoSlot l (sp.entry table (index l vaddr))

theorem sysVtpmo_eq (sp : Space) (a : UInt64)
    : sp.sysVtpmo a =
      match walk sp.vtpmoTables a 4 (sp.cr3 &&& ADDRESS_MASK) with
      | none => NO_MAP
      | some (_, frameAddr) => frameNumber frameAddr := by
  unfold sysVtpmo
  dsimp only
  split
  . next h3 => simp [walk, vtpmoTables, vtpmoSlot, index, h3]
  . next h3 =>
    split
    . next h2 => simp [walk, vtpmoTables, vtpmoSlot, index, h3, h2]
    . next h2 =>
      split
      . next h1 => simp [walk, vtpmoTables, vtpmoSlot, index, h3, h2, h1]
      . next h1 =>
        split
        . next hl => simp [walk, vtpmoTables, vtpmoSlot, index, h3, h2, h1, hl]
        . next hl =>
          rw [not_not] at hl
          split
          . next h0 => simp [walk, vtpmoTables, vtpmoSlot, index, h3, h2, h1, hl, h0]
          . next h0 => simp [walk, vtpmoTables, vtpmoSlot, index, h3, h2, h1, hl, h0]

theorem table_eq (h : e &&& 0x7ff0000000000000 = 0)
    : e &&& PT_ADDRESS_MASK = e &&& HW_ADDRESS_MASK := by
  have hmask : PT_ADDRESS_MASK = 0x7ff0000000000000 ||| HW_ADDRESS_MASK := by decide
  rw [hmask]
  apply Word.and_or_of_and_eq_zero
  exact h

theorem root_eq (h : sp.Regular a) : sp.cr3 &&& ADDRESS_MASK = sp.cr3 &&& HW_ADDRESS_MASK := by
  have hmask : ADDRESS_MASK = 0xfff0000000000000 ||| HW_ADDRESS_MASK := by decide
  rw [hmask]
  apply Word.and_or_of_and_eq_zero
  exact h.root

theorem Plain.slot_eq (h : Plain l e)
    : vtpmoSlot l e = (cpuSlot l e).map (· &&& PT_ADDRESS_MASK) := by
  unfold vtpmoSlot cpuSlot
  split
  . rfl
  . next hvalid =>
    obtain ⟨hupper, hsmall, _⟩ := h hvalid
    -- the processor would end the walk at an entry for 1 GiB, where `sys_vtpmo` goes on
    have hleaf : (l = 0 ∨ l = 1 ∧ e &&& LH_MAPPING ≠ 0) ↔ (l = 0 ∨ l ≤ 2 ∧ e &&& LH_MAPPING ≠ 0) := by
      by_cases h2 : l = 2
      . simp [h2, hsmall h2]
      . have hle : l = 0 ∨ l = 1 ↔ l = 0 ∨ l ≤ 2 := by omega
        by_cases hl : e &&& LH_MAPPING = 0
        . simp [hl]
        . simpa [hl] using hle
    simp only [hleaf]
    split
    . rfl
    . rw [table_eq hupper, Slot.map]

theorem walk_eq (h : sp.Regular a)
    : walk sp.vtpmoTables a 4 (sp.cr3 &&& ADDRESS_MASK)
        = (sp.leaf a).map (fun r => (r.1, r.2 &&& PT_ADDRESS_MASK)) := by
  rw [root_eq h, leaf]
  apply walk_map (· &&& PT_ADDRESS_MASK)
  apply h.along.mono
  intro l n hn
  apply hn.slot_eq

theorem exists_entry (h : sp.Regular a) (hleaf : sp.leaf a = some (l, e))
    : e &&& 0x7ff0000000000000 = 0 ∧ (l = 0 ∨ (l = 1 ∧ e &&& 0x1fe000 = 0)) := by
  obtain ⟨n, hplain, hslot⟩ := exists_leaf h.along hleaf
  simp only [cpuTables, cpuSlot] at hslot
  split at hslot
  . cases hslot
  . next hvalid =>
    split at hslot
    . next hl =>
      cases hslot
      obtain ⟨hupper, hsmall, hlarge⟩ := hplain hvalid
      refine ⟨hupper, ?_⟩
      rcases hl with h0 | ⟨h2, hl⟩
      . exact .inl h0
      . by_cases h2' : l = 2
        . exact absurd (hsmall h2') hl
        . by_cases h0 : l = 0
          . exact .inl h0
          . exact .inr ⟨by omega, hlarge (by omega) hl⟩
    . cases hslot

theorem toNat_frame (e : UInt64)
    : ((e &&& HW_ADDRESS_MASK) >>> 12).toNat = (e &&& HW_ADDRESS_MASK).toNat / 4096 := by
  apply Word.toNat_shiftRight _ 12
  decide

theorem toInt_eq_noMap_iff (n : Nat) : toInt n = NO_MAP ↔ n % 2 ^ 32 = 2 ^ 32 - 1 := by
  unfold toInt NO_MAP
  rw [Int.bmod_def]
  split <;> omega

/-- The number of a page of 2 MiB has eight bits clear, so that it is never all ones. -/
theorem frame_ne_of_large (h : e &&& 0x1fe000 = 0)
    : (e &&& HW_ADDRESS_MASK).toNat / 4096 % 2 ^ 32 ≠ 2 ^ 32 - 1 := by
  have hbit : (e &&& HW_ADDRESS_MASK).toNat.testBit 13 = false := by
    rw [UInt64.toNat_and, Nat.testBit_and, Word.testBit_of_and_eq_zero h 13 (by decide),
      Bool.false_and]
  rw [Nat.testBit_eq_decide_div_mod_eq] at hbit
  simp only [decide_eq_false_iff_not] at hbit
  omega

theorem exists_index (l : Nat) (a : UInt64) : ∃ n : Fin 512, index l a = UInt64.ofNat n := by
  have hle : (index l a).toNat ≤ 511 := by
    unfold index
    split <;> apply Word.toNat_and_le
  exact ⟨⟨(index l a).toNat, by omega⟩, UInt64.ofNat_toNat.symm⟩

theorem index_congr (h : a.toNat / 4096 = b.toNat / 4096) (l : Nat) : index l a = index l b := by
  have hfield : ∀ k : Nat, 12 ≤ k → k < 64 →
      (a >>> UInt64.ofNat k) = (b >>> UInt64.ofNat k) := by
    intro k hk hk'
    rw [← UInt64.toNat_inj, Word.toNat_shiftRight a k hk', Word.toNat_shiftRight b k hk']
    have hpow : 2 ^ k = 4096 * 2 ^ (k - 12) := by
      rw [show 4096 = 2 ^ 12 by rfl, ← Nat.pow_add, Nat.add_sub_cancel' hk]
    rw [hpow, ← Nat.div_div_eq_div_mul, ← Nat.div_div_eq_div_mul, h]
  unfold index
  split
  . exact congrArg (· &&& 0x1ff) (hfield 12 (by omega) (by omega))
  . exact congrArg (· &&& 0x1ff) (hfield 21 (by omega) (by omega))
  . exact congrArg (· &&& 0x1ff) (hfield 30 (by omega) (by omega))
  . exact congrArg (· &&& 0x1ff) (hfield 39 (by omega) (by omega))

theorem leaf_congr (h : a.toNat / 4096 = b.toNat / 4096) : sp.leaf a = sp.leaf b := by
  apply walk_congr
  intro l n
  simp only [cpuTables, index_congr h]

theorem canonical_iff : Canonical a ↔ a.toNat < 2 ^ 47 ∨ 2 ^ 64 - 2 ^ 47 ≤ a.toNat := by
  rw [Canonical, UInt64.lt_iff_toNat_lt, UInt64.le_iff_toNat_le]
  exact Iff.rfl

theorem Canonical.congr (hc : Canonical a) (h : b.toNat / 4096 = a.toNat / 4096) : Canonical b := by
  rw [canonical_iff] at hc ⊢
  omega

theorem isSome_translate (hc : Canonical a) : (sp.translate a).isSome = (sp.leaf a).isSome := by
  rw [translate, if_pos hc, Option.isSome_map]

theorem sysVtpmo_of_leaf (h : sp.Regular a) (hleaf : sp.leaf a = some (l, e))
    : sp.sysVtpmo a = toInt ((e &&& HW_ADDRESS_MASK).toNat / 4096 : Nat) := by
  obtain ⟨hupper, _⟩ := exists_entry h hleaf
  rw [sysVtpmo_eq, walk_eq h, hleaf]
  simp only [Option.map_some, frameNumber]
  rw [table_eq hupper, toNat_frame]

theorem sysVtpmo_of_none (h : sp.Regular a) (hleaf : sp.leaf a = none)
    : sp.sysVtpmo a = NO_MAP := by
  rw [sysVtpmo_eq, walk_eq h, hleaf]
  rfl

theorem isSome_leaf_of_mapped (h : sp.Regular a) (hmap : sp.sysVtpmo a ≠ NO_MAP)
    : (sp.leaf a).isSome := by
  rw [Option.isSome_iff_ne_none]
  intro hnone
  apply hmap
  apply sysVtpmo_of_none h hnone

theorem translate_of_leaf (hc : Canonical a) (hleaf : sp.leaf a = some (l, e))
    : sp.translate a
        = some ((e &&& HW_ADDRESS_MASK).toNat / leafSize l * leafSize l + a.toNat % leafSize l) := by
  rw [translate, if_pos hc, hleaf, Option.map_some]

theorem div_of_small (e a : UInt64)
    : ((e &&& HW_ADDRESS_MASK).toNat / leafSize 0 * leafSize 0 + a.toNat % leafSize 0) / 4096
        = (e &&& HW_ADDRESS_MASK).toNat / 4096 := by
  have hsize : leafSize 0 = 4096 := by decide
  rw [hsize]
  omega

section Sample

theorem sample_pml4 : ∀ n : Fin 512, sample.entry 0x1000 (UInt64.ofNat n) = 0
    ∨ sample.entry 0x1000 (UInt64.ofNat n) = 0x2003 := by
  decide +kernel

theorem sample_pdp : ∀ n : Fin 512, sample.entry 0x2000 (UInt64.ofNat n) = 0
    ∨ sample.entry 0x2000 (UInt64.ofNat n) = 0x3003 := by
  decide +kernel

theorem sample_pde : ∀ n : Fin 512, sample.entry 0x3000 (UInt64.ofNat n) = 0
    ∨ sample.entry 0x3000 (UInt64.ofNat n) = 0x200083 := by
  decide +kernel

theorem sample_along (h : sample.entry table (index l a) = 0 ∨ sample.entry table (index l a) = e)
    (hplain : Plain l e)
    (hnext : ∀ m, cpuSlot l e = .table m →
      Along sample.cpuTables (fun l table => Plain l (sample.entry table (index l a))) a l m)
    : Along sample.cpuTables (fun l table => Plain l (sample.entry table (index l a))) a (l + 1)
        table := by
  apply Along.cons
  . rcases h with h | h
    . rw [h]
      intro hvalid
      exact absurd rfl hvalid
    . rw [h]
      exact hplain
  . intro m hm
    dsimp only [cpuTables] at hm
    rcases h with h | h
    . rw [h] at hm
      cases hm
    . rw [h] at hm
      apply hnext m hm

theorem sample_regular (a : UInt64) : sample.Regular a := by
  obtain ⟨i, hi⟩ := exists_index 3 a
  obtain ⟨j, hj⟩ := exists_index 2 a
  obtain ⟨k, hk⟩ := exists_index 1 a
  have hroot : sample.cr3 &&& HW_ADDRESS_MASK = 0x1000 := by decide
  refine ⟨by decide, ?_⟩
  rw [hroot]
  apply sample_along (hi ▸ sample_pml4 i) (by decide)
  intro m hm
  have hm : Slot.table 0x2000 = Slot.table m := hm
  cases hm
  apply sample_along (hj ▸ sample_pdp j) (by decide)
  intro m hm
  have hm : Slot.table 0x3000 = Slot.table m := hm
  cases hm
  apply sample_along (hk ▸ sample_pde k) (by decide)
  intro m hm
  rw [cpuSlot, if_neg (by decide), if_pos (by decide)] at hm
  cases hm

theorem sample_leaf (a : UInt64) : sample.leaf a = none ∨ sample.leaf a = some (1, 0x200083) := by
  obtain ⟨i, hi⟩ := exists_index 3 a
  obtain ⟨j, hj⟩ := exists_index 2 a
  obtain ⟨k, hk⟩ := exists_index 1 a
  have hroot : sample.cr3 &&& HW_ADDRESS_MASK = 0x1000 := by decide
  rw [leaf, hroot]
  simp only [walk, cpuTables]
  rw [hi]
  rcases sample_pml4 i with h | h
  . rw [h]
    exact .inl rfl
  . rw [h, show cpuSlot 3 0x2003 = .table 0x2000 from rfl]
    dsimp only
    rw [hj]
    rcases sample_pdp j with h | h
    . rw [h]
      exact .inl rfl
    . rw [h, show cpuSlot 2 0x3003 = .table 0x3000 from rfl]
      dsimp only
      rw [hk]
      rcases sample_pde k with h | h
      . rw [h]
        exact .inl rfl
      . rw [h]
        exact .inr rfl

end Sample

end Space

end Throttling

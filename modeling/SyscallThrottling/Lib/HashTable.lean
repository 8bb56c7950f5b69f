import Mathlib.Data.Finset.Card
import Mathlib.Data.List.FinRange
import Mathlib.Data.List.Nodup
import Mathlib.Logic.Function.Basic

/-!
This module contains chained hash tables with a fixed number of buckets: the raw operations, which
take the bucket they work on from their caller, and the conditions under which such a table is a
finite set of keys.
-/

universe u

/-- A table of `B` chains. Insertion is at the head of a chain. -/
structure HashTable (B : Nat) (α : Type u) where
  bucket : Fin B → List α

namespace HashTable

variable {B : Nat} {α κ : Type u}

def empty : HashTable B α where
  bucket _ := []

def add (t : HashTable B α) (b : Fin B) (x : α) : HashTable B α where
  bucket := Function.update t.bucket b (x :: t.bucket b)

def find? (t : HashTable B α) (b : Fin B) (p : α → Bool) : Option α :=
  (t.bucket b).find? p

/-- Unlink a node. The node knows its neighbours, so no bucket is given. -/
def del [DecidableEq α] (t : HashTable B α) (x : α) : HashTable B α where
  bucket b := (t.bucket b).erase x

def toList (t : HashTable B α) : List α :=
  (List.finRange B).flatMap t.bucket

@[simp]
theorem bucket_empty (b : Fin B) : (empty : HashTable B α).bucket b = [] := rfl

@[simp]
theorem bucket_add_self (t : HashTable B α) (b : Fin B) (x : α)
    : (t.add b x).bucket b = x :: t.bucket b := by
  simp [add]

@[simp]
theorem bucket_add_of_ne (t : HashTable B α) {b b' : Fin B} (x : α) (h : b' ≠ b)
    : (t.add b x).bucket b' = t.bucket b' := by
  simp [add, h]

@[simp]
theorem bucket_del [DecidableEq α] (t : HashTable B α) (x : α) (b : Fin B)
    : (t.del x).bucket b = (t.bucket b).erase x := rfl

theorem mem_toList {t : HashTable B α} {x : α} : x ∈ t.toList ↔ ∃ b, x ∈ t.bucket b := by
  simp [toList]

theorem mem_toList_of_find? {t : HashTable B α} {b : Fin B} {p : α → Bool} {x : α}
    (h : t.find? b p = some x) : x ∈ t.toList :=
  mem_toList.mpr ⟨b, List.mem_of_find?_eq_some h⟩

@[simp]
theorem toList_empty : (empty : HashTable B α).toList = [] := by
  simp [toList]

theorem mem_toList_add {t : HashTable B α} {b : Fin B} {x y : α}
    : y ∈ (t.add b x).toList ↔ y = x ∨ y ∈ t.toList := by
  simp only [mem_toList]
  constructor
  . rintro ⟨b', hy⟩
    by_cases hb : b' = b
    . subst hb
      rw [bucket_add_self, List.mem_cons] at hy
      exact hy.imp_right fun h => ⟨b', h⟩
    . rw [bucket_add_of_ne _ _ hb] at hy
      exact .inr ⟨b', hy⟩
  . rintro (rfl | ⟨b', hy⟩)
    . exact ⟨b, by simp⟩
    . by_cases hb : b' = b
      . subst hb
        exact ⟨b', by simp [hy]⟩
      . exact ⟨b', by simpa [hb] using hy⟩

theorem perm_toList_add (t : HashTable B α) (b : Fin B) (x : α)
    : (t.add b x).toList.Perm (x :: t.toList) := by
  have hnodup := List.nodup_finRange B
  obtain ⟨l, r, hsplit⟩ := List.append_of_mem (List.mem_finRange b)
  rw [hsplit, List.nodup_middle, List.nodup_cons, List.mem_append, not_or] at hnodup
  -- the other buckets are the same
  have hsame : ∀ l : List (Fin B), b ∉ l → l.flatMap (t.add b x).bucket = l.flatMap t.bucket := by
    intro l hl
    refine List.flatMap_congr fun b' hb' => ?_
    exact bucket_add_of_ne t x (by rintro rfl; exact hl hb')
  simp only [toList, hsplit, List.flatMap_append, List.flatMap_cons, hsame l hnodup.1.1,
    hsame r hnodup.1.2, bucket_add_self, List.cons_append]
  exact List.perm_middle

theorem toList_del [DecidableEq α] {t : HashTable B α} (h : t.toList.Nodup) (x : α)
    : (t.del x).toList = t.toList.erase x := by
  unfold toList at h ⊢
  generalize List.finRange B = bs at h ⊢
  induction bs with
  | nil => rfl
  | cons b bs ih =>
    rw [List.flatMap_cons, List.nodup_append'] at h
    obtain ⟨_, hrest, hdisj⟩ := h
    rw [List.flatMap_cons, List.flatMap_cons, ih hrest, bucket_del, List.erase_append]
    split
    . next hx => rw [List.erase_of_not_mem fun h => hdisj hx h]
    . next hx => rw [List.erase_of_not_mem hx]

theorem mem_toList_del [DecidableEq α] {t : HashTable B α} (h : t.toList.Nodup) {x y : α}
    : y ∈ (t.del x).toList ↔ y ≠ x ∧ y ∈ t.toList := by
  rw [toList_del h, h.mem_erase_iff]

theorem perm_toList_del [DecidableEq α] {t : HashTable B α} (h : t.toList.Nodup) {x : α}
    (hx : x ∈ t.toList) : t.toList.Perm (x :: (t.del x).toList) := by
  rw [toList_del h]
  exact List.perm_cons_erase hx

theorem eq_empty {t : HashTable B α} (h : t.toList = []) : t = empty := by
  rw [toList, List.flatMap_eq_nil_iff] at h
  obtain ⟨bucket⟩ := t
  congr
  funext b
  exact h b (List.mem_finRange b)

/--
`t` stores every node in the chain its key hashes to, and no key twice.
-/
structure WellFormed (key : α → κ) (hash : κ → Fin B) (t : HashTable B α) : Prop where
  placed : ∀ b, ∀ x ∈ t.bucket b, hash (key x) = b
  nodup : ∀ b, ((t.bucket b).map key).Nodup

def keys [DecidableEq κ] (key : α → κ) (t : HashTable B α) : Finset κ :=
  (t.toList.map key).toFinset

section Keys

variable [DecidableEq κ] {key : α → κ} {hash : κ → Fin B} {t : HashTable B α}

theorem mem_keys {k : κ} : k ∈ keys key t ↔ ∃ x ∈ t.toList, key x = k := by
  simp [keys]

@[simp]
theorem keys_empty : keys key (empty : HashTable B α) = ∅ := by
  simp [keys]

theorem keys_add (b : Fin B) (x : α) : keys key (t.add b x) = insert (key x) (keys key t) := by
  ext k
  simp only [mem_keys, mem_toList_add, Finset.mem_insert]
  constructor
  . rintro ⟨y, rfl | hy, rfl⟩
    . exact .inl rfl
    . exact .inr ⟨y, hy, rfl⟩
  . rintro (rfl | ⟨y, hy, rfl⟩)
    . exact ⟨x, .inl rfl, rfl⟩
    . exact ⟨y, .inr hy, rfl⟩

end Keys

namespace WellFormed

variable {key : α → κ} {hash : κ → Fin B} {t : HashTable B α}

protected theorem empty : WellFormed key hash (empty : HashTable B α) where
  placed := by simp
  nodup := by simp

theorem mem_bucket (h : WellFormed key hash t) {x : α} (hx : x ∈ t.toList)
    : x ∈ t.bucket (hash (key x)) := by
  obtain ⟨b, hb⟩ := mem_toList.mp hx
  have := h.placed b x hb
  rwa [this]

theorem eq_of_key_eq (h : WellFormed key hash t) {x y : α} (hx : x ∈ t.toList)
    (hy : y ∈ t.toList) (hkey : key x = key y) : x = y := by
  have hx' := h.mem_bucket hx
  have hy' := h.mem_bucket hy
  rw [← hkey] at hy'
  exact List.inj_on_of_nodup_map (h.nodup _) hx' hy' hkey

theorem nodup_map_toList (h : WellFormed key hash t) : (t.toList.map key).Nodup := by
  rw [toList, List.map_flatMap, List.nodup_flatMap]
  refine ⟨fun b _ => h.nodup b, ?_⟩
  refine (List.nodup_finRange B).imp ?_
  -- a key in two chains would be placed in both
  intro b b' hne k hk hk'
  obtain ⟨x, hx, rfl⟩ := List.mem_map.mp hk
  obtain ⟨y, hy, hxy⟩ := List.mem_map.mp hk'
  apply hne
  rw [← h.placed b x hx, ← h.placed b' y hy, hxy]

theorem nodup_toList (h : WellFormed key hash t) : t.toList.Nodup :=
  List.Nodup.of_map _ h.nodup_map_toList

variable [DecidableEq κ]

theorem length_toList (h : WellFormed key hash t) : t.toList.length = (keys key t).card := by
  rw [keys, List.toFinset_card_of_nodup h.nodup_map_toList, List.length_map]

theorem find?_eq_none (h : WellFormed key hash t) {k : κ}
    : t.find? (hash k) (fun x => key x = k) = none ↔ k ∉ keys key t := by
  rw [find?, List.find?_eq_none, mem_keys]
  constructor
  . rintro hnone ⟨x, hx, rfl⟩
    simpa using hnone x (h.mem_bucket hx)
  . intro hk x hx
    simp only [decide_eq_true_eq]
    rintro rfl
    exact hk ⟨x, mem_toList.mpr ⟨_, hx⟩, rfl⟩

theorem find?_eq_some (h : WellFormed key hash t) {k : κ} {x : α}
    : t.find? (hash k) (fun x => key x = k) = some x ↔ x ∈ t.toList ∧ key x = k := by
  constructor
  . intro hx
    refine ⟨mem_toList_of_find? hx, ?_⟩
    simpa using List.find?_some hx
  . rintro ⟨hx, rfl⟩
    cases hf : t.find? (hash (key x)) (fun y => key y = key x) with
    | none =>
      rw [h.find?_eq_none, mem_keys] at hf
      exact absurd ⟨x, hx, rfl⟩ hf
    | some y =>
      have hy : y ∈ t.toList := mem_toList_of_find? hf
      have hkey : key y = key x := by simpa using List.find?_some hf
      rw [h.eq_of_key_eq hy hx hkey]

theorem countP_toList (h : WellFormed key hash t) (k : κ)
    : t.toList.countP (fun x => key x = k) = if k ∈ keys key t then 1 else 0 := by
  have hcount : t.toList.countP (fun x => key x = k) = (t.toList.map key).count k := by
    rw [List.count, List.countP_map]
    congr 1
  rw [hcount, h.nodup_map_toList.count, keys]
  simp

protected theorem add (h : WellFormed key hash t) {x : α} (hx : key x ∉ keys key t)
    : WellFormed key hash (t.add (hash (key x)) x) where
  placed := by
    intro b y hy
    by_cases hb : b = hash (key x)
    . subst hb
      rw [bucket_add_self, List.mem_cons] at hy
      rcases hy with rfl | hy
      . rfl
      . exact h.placed _ y hy
    . rw [bucket_add_of_ne _ _ hb] at hy
      exact h.placed b y hy
  nodup := by
    intro b
    by_cases hb : b = hash (key x)
    . subst hb
      rw [bucket_add_self, List.map_cons, List.nodup_cons]
      refine ⟨?_, h.nodup _⟩
      intro hmem
      obtain ⟨y, hy, hkey⟩ := List.mem_map.mp hmem
      exact hx (mem_keys.mpr ⟨y, mem_toList.mpr ⟨_, hy⟩, hkey⟩)
    . rw [bucket_add_of_ne _ _ hb]
      exact h.nodup b

variable [DecidableEq α]

omit [DecidableEq κ] in
protected theorem del (h : WellFormed key hash t) (x : α) : WellFormed key hash (t.del x) where
  placed := by
    intro b y hy
    rw [bucket_del] at hy
    exact h.placed b y (List.mem_of_mem_erase hy)
  nodup := by
    intro b
    rw [bucket_del]
    exact (h.nodup b).sublist (List.erase_sublist.map key)

theorem keys_del (h : WellFormed key hash t) {x : α} (hx : x ∈ t.toList)
    : keys key (t.del x) = (keys key t).erase (key x) := by
  ext k
  simp only [mem_keys, mem_toList_del h.nodup_toList, Finset.mem_erase]
  constructor
  . rintro ⟨y, ⟨hne, hy⟩, rfl⟩
    exact ⟨fun hkey => hne (h.eq_of_key_eq hy hx hkey), y, hy, rfl⟩
  . rintro ⟨hne, y, hy, rfl⟩
    exact ⟨y, ⟨fun hyx => hne (by rw [hyx]), hy⟩, rfl⟩

end WellFormed

end HashTable

import SyscallThrottling.Impl.Api.Registry

/-!
This module contains the strings that the copies of program names leave in their buffers.
-/

namespace Throttling

namespace Comm

theorem toList_ofBytes {l : List UInt8} (h : l.length ≤ 16)
    : (ofBytes l).toList = l ++ List.replicate (16 - l.length) 0 := by
  apply List.ext_getElem
  . simp only [Vector.length_toList, List.length_append, List.length_replicate]
    omega
  . intro i h1 h2
    have hi : i < 16 := by simpa using h1
    rw [List.getElem_append]
    simp only [ofBytes, Vector.getElem_toList, Vector.getElem_ofFn, List.getElem_replicate]
    split
    . next h => simp [h]
    . next h => simp [h]

theorem toList_terminate (c : Comm) : c.terminate.toList = c.toList.take 15 ++ [0] := by
  apply List.ext_getElem
  . simp
  . intro i h1 h2
    have hi : i < 16 := by simpa using h1
    rw [List.getElem_append]
    simp only [terminate, Vector.getElem_toList, Vector.getElem_set]
    split
    . next h =>
      subst h
      simp
    . next h =>
      have : i < 15 := by omega
      simp [this]

theorem truncate_toList (c : Comm) : CString.truncate 16 c.toList = c.str :=
  CString.truncate_of_length_le (by simp)

theorem str_ofBytes {l : List UInt8} (h0 : ∀ c ∈ l, c ≠ 0) (hl : l.length ≤ 15)
    : (ofBytes l).str = l := by
  have hpad : List.replicate (16 - l.length) (0 : UInt8) = 0 :: List.replicate (15 - l.length) 0 := by
    rw [← List.replicate_succ]
    congr 1
    omega
  rw [str, toList_ofBytes (by omega), hpad, CString.bytes_append_zero, CString.bytes_eq_self h0]

theorem str_terminate (c : Comm) : c.terminate.str = CString.truncate 15 c.toList := by
  rw [str, toList_terminate, CString.bytes_append_zero, CString.bytes_take]

theorem str_ofBytes_truncate (s : List UInt8)
    : (ofBytes (CString.truncate 15 s)).str = CString.truncate 15 s :=
  str_ofBytes (fun _ => CString.ne_zero_of_mem_truncate) (CString.length_truncate_le 15 s)

theorem str_strncpy_terminate (c : Comm) : (strncpy c.terminate).str = c.terminate.str := by
  rw [strncpy, str_ofBytes_truncate, str_terminate, toList_terminate, CString.truncate,
    CString.bytes_append_zero, CString.bytes_take]
  exact List.take_of_length_le (CString.length_truncate_le 15 _)

theorem str_strncpyFromUser (s : List UInt8)
    : (strncpyFromUser s).terminate.str = CString.truncate 15 s := by
  rw [str_terminate, strncpyFromUser, CString.truncate, ← str, str_ofBytes_truncate]
  exact List.take_of_length_le (CString.length_truncate_le 15 s)

theorem toList_strscpy (dst src : Comm)
    : ∃ rest, (strscpy dst src).toList = CString.truncate 15 src.toList ++ 0 :: rest := by
  have hlen := CString.length_truncate_le 15 src.toList
  refine ⟨(strscpy dst src).toList.drop ((CString.truncate 15 src.toList).length + 1), ?_⟩
  apply List.ext_getElem
  . simp only [Vector.length_toList, List.length_append, List.length_cons, List.length_drop]
    omega
  . intro i h1 h2
    rw [List.getElem_append]
    split
    . next h => simp [strscpy, h]
    . next h =>
      rw [List.getElem_cons]
      split
      . next h' =>
        have : i = (CString.truncate 15 src.toList).length := by omega
        simp [strscpy, this]
      . next h' =>
        rw [List.getElem_drop]
        congr 1
        omega

theorem str_strscpy (dst src : Comm) : (strscpy dst src).str = CString.truncate 15 src.toList := by
  obtain ⟨rest, h⟩ := toList_strscpy dst src
  rw [str, h, CString.bytes_append_zero, CString.bytes_truncate]

theorem str_strscpy_of_short (dst : Comm) {src : Comm} {s : List UInt8}
    (h : src.str = CString.truncate 15 s) : (strscpy dst src).str = CString.truncate 15 s := by
  rw [str_strscpy, CString.truncate, ← str, h, CString.truncate, List.take_take, min_self]

end Comm

variable (K : Platform)

theorem hashValue_eq (name : Comm) : hashValue K name = K.jhash name.str := by
  -- `strnlen` stops at the terminator, so what follows it is not hashed
  rw [hashValue, CString.take_strnlen, Comm.truncate_toList]

theorem ProgRegistry.lookup_eq (r : ProgRegistry) (name : Comm)
    : r.lookup K (hashValue K name) name
        = r.progHash.find? (K.hashMin (K.jhash name.str)) (fun curr => curr.name.str = name.str) := by
  rw [ProgRegistry.lookup, hashValue_eq]
  simp only [CString.strncmp_eq_zero, Comm.truncate_toList]

end Throttling

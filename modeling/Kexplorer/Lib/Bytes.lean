import Mathlib.Data.List.TakeWhile

/-!
# Byte strings

Everything the program moves around is a sequence of `char`s: socket chunks,
JSON texts, process names.  They are lists of `UInt8` here, whatever the
signedness of `char`, and a `const char*` that is read as a C string is the
part of the memory it points into that precedes the first NUL.
-/

namespace Kexplorer

/-- A sequence of bytes: a `std::string`, a chunk, or a stretch of memory. -/
abbrev Bytes := List UInt8

/-- The bytes of an ASCII literal of the source. -/
def ascii (s : String) : Bytes := s.toList.map fun c => c.toNat.toUInt8

/-- What a function that takes a `const char*` sees of the memory behind it:
the bytes before the first NUL. -/
def cstr (memory : Bytes) : Bytes := memory.takeWhile (· ≠ 0)

/-- A byte string without NUL is its own C string. -/
theorem cstr_eq_self {s : Bytes} (h : 0 ∉ s) : cstr s = s := by
  rw [cstr, List.takeWhile_eq_self_iff]
  intro c hc
  simp only [ne_eq, decide_eq_true_eq]
  rintro rfl
  exact h hc

/-- A byte string that is its own C string holds no NUL. -/
theorem zero_notMem_of_cstr_eq {s : Bytes} (h : cstr s = s) : 0 ∉ s := by
  rw [cstr, List.takeWhile_eq_self_iff] at h
  intro hmem
  simpa using h 0 hmem

/-- A C string holds no NUL. -/
theorem zero_notMem_cstr (memory : Bytes) : 0 ∉ cstr memory := by
  intro hmem
  simpa using List.mem_takeWhile_imp hmem

/-- A C string: the bytes before its terminator. -/
structure CString where
  bytes : Bytes
  noNul : 0 ∉ bytes
  deriving DecidableEq

/-- The C string at the start of some memory. -/
def CString.ofMemory (memory : Bytes) : CString := ⟨cstr memory, zero_notMem_cstr memory⟩

/-- A string literal of the source. -/
def literal (s : String) : CString := .ofMemory (ascii s)

@[simp] theorem CString.ofMemory_bytes (s : CString) : CString.ofMemory s.bytes = s := by
  cases s with
  | mk bytes noNul => simp only [CString.ofMemory, cstr_eq_self noNul]

theorem CString.bytes_inj {s t : CString} : s.bytes = t.bytes ↔ s = t := by
  constructor
  · intro h
    rw [← CString.ofMemory_bytes s, h, CString.ofMemory_bytes]
  · rintro rfl
    rfl

/-! ## The last occurrence of a byte -/

/-- The position of the last occurrence of a byte. -/
def lastIndexOf (c : UInt8) : Bytes → Option Nat
  | [] => none
  | d :: s =>
      match lastIndexOf c s with
      | some i => some (i + 1)
      | none => if d = c then some 0 else none

theorem lastIndexOf_eq_none {c : UInt8} {s : Bytes} (h : c ∉ s) : lastIndexOf c s = none := by
  induction s with
  | nil => rfl
  | cons d s ih =>
      rw [List.mem_cons, not_or] at h
      simp [lastIndexOf, ih h.2, Ne.symm h.1]

theorem lastIndexOf_append {c : UInt8} (s : Bytes) {rest : Bytes} (h : c ∉ rest) :
    lastIndexOf c (s ++ c :: rest) = some s.length := by
  induction s with
  | nil => simp [lastIndexOf, lastIndexOf_eq_none h]
  | cons d s ih => simp [lastIndexOf, ih]

theorem lastIndexOf_append_of_notMem {c : UInt8} (s : Bytes) {rest : Bytes} (h : c ∉ rest) :
    lastIndexOf c (s ++ rest) = lastIndexOf c s := by
  induction s with
  | nil => exact lastIndexOf_eq_none h
  | cons d s ih => simp only [List.cons_append, lastIndexOf, ih]

theorem exists_lastIndexOf {c : UInt8} {s : Bytes} (h : c ∈ s) :
    ∃ i, lastIndexOf c s = some i ∧ i < s.length := by
  induction s with
  | nil => cases h
  | cons d s ih =>
      rw [lastIndexOf]
      by_cases hMem : c ∈ s
      · obtain ⟨i, hSome, hLt⟩ := ih hMem
        exact ⟨i + 1, by rw [hSome], Nat.succ_lt_succ hLt⟩
      · rw [lastIndexOf_eq_none hMem]
        rcases List.mem_cons.mp h with rfl | hTail
        · exact ⟨0, if_pos rfl, Nat.zero_lt_succ _⟩
        · exact absurd hTail hMem

theorem lt_of_lastIndexOf_eq_some {c : UInt8} {s : Bytes} {i : Nat}
    (h : lastIndexOf c s = some i) : i < s.length := by
  by_cases hMem : c ∈ s
  · obtain ⟨j, hSome, hLt⟩ := exists_lastIndexOf hMem
    cases h.symm.trans hSome
    exact hLt
  · cases h.symm.trans (lastIndexOf_eq_none hMem)

end Kexplorer

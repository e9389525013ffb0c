import Kexplorer.Json.RoundTrip
import Mathlib.Algebra.Group.Int.Defs
import Mathlib.Algebra.Group.Nat.Defs

/-!
# Numbers of the C library

`strtol` and its relatives skip white space, take a sign and the digits behind
it, and saturate.  `long` and `long long` have 64 bits.  `Read` lemmas say that
they give back the number that a decimal numeral denotes, whatever follows the
numeral, as long as it is not a digit.
-/

namespace Kexplorer.Util

open Kexplorer.Json

/-- `std::isspace` in the C locale. -/
def isspace (c : UInt8) : Bool := c = 0x20 || (0x09 ≤ c && c ≤ 0x0D)

/-- The sign and the number that `strtol` to the base 10 finds in a text: without digits it
finds a zero. -/
def subject (s : Bytes) : Bool × Nat :=
  match s.dropWhile isspace with
  | 0x2D :: digits => (true, ofDigits (takeDigits digits))
  | 0x2B :: digits => (false, ofDigits (takeDigits digits))
  | digits => (false, ofDigits (takeDigits digits))

/-- `std::strtol`, which ends at `LONG_MIN` and `LONG_MAX`. -/
def strtol (s : Bytes) : Int64 :=
  let n : Int := if (subject s).1 then -((subject s).2 : Int) else (subject s).2
  if n < -2 ^ 63 then Int64.minValue
  else if 2 ^ 63 ≤ n then Int64.maxValue
  else Int64.ofInt n

/-- `std::strtoul`, which ends at `ULONG_MAX` and negates what follows a minus sign. -/
def strtoul (s : Bytes) : UInt64 :=
  if 2 ^ 64 ≤ (subject s).2 then UInt64.ofNat (2 ^ 64 - 1)
  else if (subject s).1 then -UInt64.ofNat (subject s).2
  else UInt64.ofNat (subject s).2

/-- `std::strtoull`: `unsigned long long` is as wide as `unsigned long`. -/
def strtoull (s : Bytes) : UInt64 := strtoul s

/-- The decimal numeral of an integer, as `std::to_string` and the kernel write it. -/
def numeral (n : Int) : Bytes :=
  if n < 0 then 0x2D :: decimal n.natAbs else decimal n.natAbs

/-! ## Reading back a numeral -/

/-- What may follow a numeral: it is not read as part of it. -/
def Stops (rest : Bytes) : Prop := ∀ c ∈ rest.head?, isDigit c = false

theorem stops_nil : Stops [] := by
  rintro c ⟨⟩

theorem stops_cons {c : UInt8} (h : isDigit c = false) (rest : Bytes) : Stops (c :: rest) := by
  rintro d ⟨⟩
  exact h

theorem Stops.takeDigits_decimal {rest : Bytes} (h : Stops rest) (n : Nat) :
    takeDigits (decimal n ++ rest) = decimal n := by
  rw [takeDigits, List.takeWhile_append_of_pos fun _ => isDigit_of_mem_decimal]
  cases rest with
  | nil => simp
  | cons c rest => simp [h c rfl]

/-- A digit is neither white space nor a sign. -/
theorem not_isspace_of_isDigit {c : UInt8} (h : isDigit c = true) :
    isspace c = false ∧ c ≠ 0x2D ∧ c ≠ 0x2B := by
  simp only [isDigit, decide_eq_true_eq, UInt8.le_iff_toNat_le] at h
  simp only [isspace, Bool.or_eq_false_iff, decide_eq_false_iff_not, Bool.and_eq_false_iff,
    UInt8.le_iff_toNat_le, ne_eq, ← UInt8.toNat_inj]
  have h30 : (0x30 : UInt8).toNat = 48 := rfl
  have h39 : (0x39 : UInt8).toNat = 57 := rfl
  have h20 : (0x20 : UInt8).toNat = 32 := rfl
  have h0D : (0x0D : UInt8).toNat = 13 := rfl
  have h2D : (0x2D : UInt8).toNat = 45 := rfl
  have h2B : (0x2B : UInt8).toNat = 43 := rfl
  omega

theorem exists_cons_decimal (n : Nat) :
    ∃ c digits, decimal n = c :: digits ∧ isDigit c = true := by
  obtain ⟨c, digits, hEq⟩ := List.exists_cons_of_ne_nil (decimal_ne_nil n)
  exact ⟨c, digits, hEq, isDigit_of_mem_decimal (n := n) (by rw [hEq]; simp)⟩

/-- A numeral is read as its sign and its absolute value. -/
theorem Stops.subject_numeral {rest : Bytes} (h : Stops rest) (n : Int) :
    subject (numeral n ++ rest) = (decide (n < 0), n.natAbs) := by
  rw [numeral]
  split
  case isTrue hNeg =>
    simp [subject, isspace, h.takeDigits_decimal, ofDigits_decimal, hNeg]
  case isFalse hNeg =>
    have hDigits := h.takeDigits_decimal n.natAbs
    obtain ⟨c, digits, hEq, hDigit⟩ := exists_cons_decimal n.natAbs
    obtain ⟨hSpace, hMinus, hPlus⟩ := not_isspace_of_isDigit hDigit
    rw [hEq] at hDigits ⊢
    rw [List.cons_append] at hDigits ⊢
    rw [subject, List.dropWhile_cons_of_neg (by simp [hSpace])]
    split
    · rename_i hCons
      exact absurd (List.cons.inj hCons).1 hMinus
    · rename_i hCons
      exact absurd (List.cons.inj hCons).1 hPlus
    · rw [hDigits, ← hEq, ofDigits_decimal, decide_eq_false hNeg]

/-- `strtol` reads back the numerals of a `long`. -/
theorem Stops.strtol_numeral {rest : Bytes} (h : Stops rest) (n : Int64) :
    strtol (numeral n.toInt ++ rest) = n := by
  have hLow := n.le_toInt
  have hHigh := n.toInt_lt
  have hValue : (if decide (n.toInt < 0) = true then -(n.toInt.natAbs : Int)
      else n.toInt.natAbs) = n.toInt := by
    split <;> rename_i hSign <;> simp only [decide_eq_true_eq] at hSign <;> omega
  simp only [strtol, h.subject_numeral, hValue]
  rw [if_neg (by omega), if_neg (by omega), Int64.ofInt_toInt]

/-- `strtoul` reads back the numerals of an `unsigned long`. -/
theorem Stops.strtoul_numeral {rest : Bytes} (h : Stops rest) (n : UInt64) :
    strtoul (numeral n.toNat ++ rest) = n := by
  have hLt := n.toNat_lt
  simp only [strtoul, h.subject_numeral, Int.natAbs_natCast]
  rw [if_neg (by omega), if_neg (by simp), UInt64.ofNat_toNat]

theorem Stops.strtoull_numeral {rest : Bytes} (h : Stops rest) (n : UInt64) :
    strtoull (numeral n.toNat ++ rest) = n :=
  h.strtoul_numeral n

/-- An `int` that is assigned from `strtol` has the number of its numeral. -/
theorem Stops.toInt32_strtol_numeral {rest : Bytes} (h : Stops rest) (n : Int32) :
    (strtol (numeral n.toInt ++ rest)).toInt32 = n := by
  rw [← Int32.toInt_toInt64, h.strtol_numeral, Int32.toInt32_toInt64]

/-- An `unsigned` that is assigned from `strtoul` has the number of its numeral. -/
theorem Stops.toUInt32_strtoul_numeral {rest : Bytes} (h : Stops rest) (n : UInt32) :
    (strtoul (numeral n.toNat ++ rest)).toUInt32 = n := by
  rw [← UInt32.toNat_toUInt64, h.strtoul_numeral, UInt32.toUInt32_toUInt64]

/-! ## The bytes of a numeral -/

theorem exists_cons_numeral (n : Int) :
    ∃ c digits, numeral n = c :: digits ∧ (c = 0x2D ∨ isDigit c = true) := by
  rw [numeral]
  split
  · exact ⟨_, _, rfl, .inl rfl⟩
  · obtain ⟨c, digits, hEq, hDigit⟩ := exists_cons_decimal n.natAbs
    exact ⟨c, digits, hEq, .inr hDigit⟩

theorem of_mem_numeral {n : Int} {c : UInt8} (h : c ∈ numeral n) :
    c = 0x2D ∨ isDigit c = true := by
  rw [numeral] at h
  split at h
  · rcases List.mem_cons.mp h with rfl | hMem
    · exact .inl rfl
    · exact .inr (isDigit_of_mem_decimal hMem)
  · exact .inr (isDigit_of_mem_decimal h)

end Kexplorer.Util

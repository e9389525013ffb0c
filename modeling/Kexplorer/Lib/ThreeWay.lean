import Mathlib.Data.List.Lex
import Mathlib.Order.Lattice

/-!
# Results of three-way comparisons

A three-way comparison yields a number, of which the sign says how its arguments
compare.  Two results for the same arguments have one sign, and `sign_swap` is
what becomes of it when the arguments are exchanged.

`HasSign.lexicographic` puts the comparison of two lists together from that of
their prefixes of equal length and that of their lengths.
-/

namespace Kexplorer.Lib

variable {A : Type*}

/-- The number is negative, zero or positive as the first value is less than, equal to or greater
than the second. -/
structure HasSign [LT A] (v : Int) (a b : A) : Prop where
  neg : v < 0 ↔ a < b
  zero : v = 0 ↔ a = b
  pos : 0 < v ↔ b < a

theorem hasSign_sub (m n : Nat) : HasSign ((m : Int) - n) m n where
  neg := by omega
  zero := by omega
  pos := by omega

namespace HasSign

/-- A number of the same sign says the same. -/
theorem congr [LT A] {v w : Int} {a b : A} (h : HasSign v a b) (hSign : w.sign = v.sign) :
    HasSign w a b where
  neg := by rw [← h.neg, ← Int.sign_eq_neg_one_iff_neg, hSign, Int.sign_eq_neg_one_iff_neg]
  zero := by rw [← h.zero, ← Int.sign_eq_zero_iff_zero, hSign, Int.sign_eq_zero_iff_zero]
  pos := by rw [← h.pos, ← Int.sign_eq_one_iff_pos, hSign, Int.sign_eq_one_iff_pos]

theorem sign_eq [LT A] {v w : Int} {a b : A} (h : HasSign v a b) (h' : HasSign w a b) :
    v.sign = w.sign := by
  rcases Int.lt_trichotomy w 0 with hw | rfl | hw
  · rw [Int.sign_eq_neg_one_of_neg hw, Int.sign_eq_neg_one_of_neg (h.neg.mpr (h'.neg.mp hw))]
  · rw [h.zero.mpr (h'.zero.mp rfl)]
  · rw [Int.sign_eq_one_of_pos hw, Int.sign_eq_one_of_pos (h.pos.mpr (h'.pos.mp hw))]

theorem swap [LT A] {v : Int} {a b : A} (h : HasSign v a b) : HasSign (-v) b a where
  neg := by rw [← h.pos, Int.neg_neg_iff_pos]
  zero := by rw [Int.neg_eq_zero, h.zero, eq_comm]
  pos := by rw [← h.neg, Int.neg_pos]

theorem sign_swap [LT A] {v w : Int} {a b : A} (h : HasSign v a b) (h' : HasSign w b a) :
    w.sign = -v.sign := by
  rw [h'.sign_eq h.swap, Int.sign_neg]

theorem nonpos [LinearOrder A] {v : Int} {a b : A} (h : HasSign v a b) : v ≤ 0 ↔ a ≤ b := by
  rw [← Int.not_lt, h.pos, not_lt]

end HasSign

/-! ## Lists -/

theorem lt_iff_take_lt [LinearOrder A] (a : List A) : ∀ b : List A,
    a < b ↔ a.take (min a.length b.length) < b.take (min a.length b.length) ∨
      a.take (min a.length b.length) = b.take (min a.length b.length) ∧ a.length < b.length := by
  induction a with
  | nil =>
      intro b
      cases b with
      | nil => simp
      | cons y b => simp
  | cons x a ih =>
      intro b
      cases b with
      | nil => simp
      | cons y b =>
          rw [List.cons_lt_cons_iff, ih b, List.length_cons, List.length_cons,
            Nat.add_min_add_right, List.take_succ_cons, List.take_succ_cons,
            List.cons_lt_cons_iff, List.cons.injEq, Nat.add_lt_add_iff_right]
          tauto

theorem eq_iff_take_eq (a b : List A) :
    a = b ↔ a.take (min a.length b.length) = b.take (min a.length b.length) ∧
      a.length = b.length := by
  constructor
  · rintro rfl
    exact ⟨rfl, rfl⟩
  · rintro ⟨hTake, hLength⟩
    rwa [hLength, Nat.min_self, List.take_length, ← hLength, List.take_length] at hTake

/-- The comparison of the prefixes decides, and if they are equal that of the lengths. -/
theorem HasSign.lexicographic [LinearOrder A] {v w : Int} {a b : List A}
    (hPrefix : HasSign v (a.take (min a.length b.length)) (b.take (min a.length b.length)))
    (hLength : HasSign w a.length b.length) : HasSign (if v = 0 then w else v) a b := by
  have hLt := lt_iff_take_lt a b
  have hGt := lt_iff_take_lt b a
  have hEq := eq_iff_take_eq a b
  rw [Nat.min_comm] at hGt
  by_cases hZero : v = 0
  · have hTake := hPrefix.zero.mp hZero
    rw [hTake] at hLt hEq hGt
    rw [if_pos hZero]
    refine ⟨?_, ?_, ?_⟩
    · rw [hLength.neg, hLt]
      simp
    · rw [hLength.zero, hEq]
      simp
    · rw [hLength.pos, hGt]
      simp
  · have hTake := mt hPrefix.zero.mpr hZero
    rw [if_neg hZero]
    refine ⟨?_, ?_, ?_⟩
    · rw [hPrefix.neg, hLt, or_iff_left fun h => hTake h.1]
    · rw [hEq, iff_false_intro hZero, iff_false_intro fun h : _ ∧ _ => hTake h.1]
    · rw [hPrefix.pos, hGt, or_iff_left fun h => hTake h.1.symm]

end Kexplorer.Lib

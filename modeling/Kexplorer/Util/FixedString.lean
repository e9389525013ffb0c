import Kexplorer.Lib.ThreeWay
import Mathlib.Algebra.Group.Nat.Defs
import Mathlib.Order.Compare

/-!
# `FixedString`

A string of at most `N` characters in an array of its own, with a terminator
behind them.  The array holds anything before a constructor writes to it.

Two strings are compared by `CharTraits` up to the length of the shorter one and
then by their lengths.  No object has more bytes than `ptrdiff_t` can count, so
that the difference of two lengths is one, although it is computed without a
sign; what does not fit into an `int` is clamped.

`compare_lexicographic` is what all of this amounts to.
-/

namespace Kexplorer.Util

open Kexplorer.Lib

variable {CharT : Type}

/-- `std::basic_string_view`. -/
structure StringView (CharT : Type) where
  data : List CharT
  length_lt : data.length < 2 ^ 63

namespace StringView

def length (v : StringView CharT) : Nat := v.data.length

end StringView

/-- `FixedString`. -/
structure FixedString (CharT : Type) [Inhabited CharT] (N : Nat) where
  m_str : Vector CharT (N + 1)
  m_length : Nat
  length_le : m_length ≤ N
  length_lt : m_length < 2 ^ 63
  terminated : m_str[m_length]? = some default

namespace FixedString

variable [Inhabited CharT] {N M : Nat}

/-- The default constructor. -/
def empty (memory : Vector CharT (N + 1)) : FixedString CharT N where
  m_str := memory.set 0 default
  m_length := 0
  length_le := Nat.zero_le N
  length_lt := by decide
  terminated := by simp

/-- The array after the characters and the terminator have been written to it. -/
def written (memory : List CharT) (src : List CharT) (count : Nat) : List CharT :=
  (src.take count ++ memory.drop count).set count default

theorem length_written {memory src : List CharT} {count : Nat} (hSrc : count ≤ src.length)
    (hMemory : count < memory.length) : (written memory src count).length = memory.length := by
  simp only [written, List.length_set, List.length_append, List.length_take, List.length_drop]
  omega

theorem take_written {memory src : List CharT} {count : Nat} (hSrc : count ≤ src.length) :
    (written memory src count).take count = src.take count := by
  rw [written, List.take_set_of_le (Nat.le_refl count),
    List.take_append_of_le_length (by rw [List.length_take]; omega), List.take_take, Nat.min_self]

theorem getElem?_written {memory src : List CharT} {count : Nat} (hSrc : count ≤ src.length)
    (hMemory : count < memory.length) : (written memory src count)[count]? = some default := by
  rw [written, List.getElem?_set_self]
  simp only [List.length_append, List.length_take, List.length_drop]
  omega

/-- The constructor from a `std::basic_string_view`. -/
def ofView (memory : Vector CharT (N + 1)) (src : StringView CharT) : FixedString CharT N where
  m_str :=
    ⟨(written memory.toList src.data (min src.length N)).toArray, by
      have hSrc : min src.length N ≤ src.data.length := Nat.min_le_left _ _
      rw [List.size_toArray, length_written hSrc (by rw [Vector.length_toList]; omega),
        Vector.length_toList]⟩
  m_length := min src.length N
  length_le := Nat.min_le_right _ _
  length_lt := Nat.lt_of_le_of_lt (Nat.min_le_left _ _) src.length_lt
  terminated := by
    have hSrc : min src.length N ≤ src.data.length := Nat.min_le_left _ _
    rw [Vector.getElem?_mk, List.getElem?_toArray,
      getElem?_written hSrc (by rw [Vector.length_toList]; omega)]

/-- What is in front of the terminator. -/
def contents (a : FixedString CharT N) : List CharT := a.m_str.toList.take a.m_length

theorem contents_prefix (a : FixedString CharT N) : a.contents <+: a.m_str.toList :=
  List.take_prefix _ _

@[simp] theorem length_contents (a : FixedString CharT N) : a.contents.length = a.m_length := by
  have := a.length_le
  rw [contents, List.length_take, Vector.length_toList]
  omega

theorem contents_ofView (memory : Vector CharT (N + 1)) (src : StringView CharT) :
    (ofView memory src).contents = src.data.take N :=
  calc
    (ofView memory src).contents
      = (written memory.toList src.data (min src.length N)).take (min src.length N) := rfl
    _ = src.data.take (min src.length N) := take_written (Nat.min_le_left _ _)
    _ = src.data.take (min N src.data.length) := by rw [Nat.min_comm, StringView.length]
    _ = src.data.take N := (List.take_eq_take_min ..).symm

/-- The view that `data` and `length` make. -/
def view (a : FixedString CharT N) : StringView CharT where
  data := a.contents
  length_lt := by
    rw [length_contents]
    exact a.length_lt

/-- The constructor from a string of another capacity; one of the same is copied as it is. -/
def ofFixedString (memory : Vector CharT (N + 1)) (o : FixedString CharT M) :
    FixedString CharT N :=
  ofView memory o.view

/-- A string with room for all of another one holds the same. -/
theorem contents_ofFixedString (memory : Vector CharT (M + 1))
    {a : FixedString CharT N} (h : a.m_length ≤ M) :
    (ofFixedString memory a).contents = a.contents := by
  rw [ofFixedString, contents_ofView]
  exact List.take_of_length_le (by rwa [view, length_contents])

end FixedString

/-! ## Lengths -/

/-- The private `compare`, of two lengths. -/
def compareLengths (n1 n2 : UInt64) : Int32 :=
  let diff := (n1 - n2).toInt64
  if Int32.maxValue.toInt64 < diff then Int32.maxValue
  else if diff < Int32.minValue.toInt64 then Int32.minValue
  else diff.toInt32

theorem toInt_toBitVec_ofNat {n : Nat} (h : n < 2 ^ 63) :
    (UInt64.ofNat n).toBitVec.toInt = n := by
  rw [UInt64.toBitVec_ofNat', BitVec.toInt_ofNat']
  exact Int.bmod_eq_of_le (by omega) (by omega)

/-- The difference is computed without a sign, and has one as a `ptrdiff_t`. -/
theorem toInt_toInt64_sub {m n : Nat} (hm : m < 2 ^ 63) (hn : n < 2 ^ 63) :
    (UInt64.ofNat m - UInt64.ofNat n).toInt64.toInt = (m : Int) - n := by
  rw [← Int64.toInt_toBitVec, UInt64.toBitVec_toInt64, UInt64.toBitVec_sub, BitVec.toInt_sub,
    toInt_toBitVec_ofNat hm, toInt_toBitVec_ofNat hn]
  exact Int.bmod_eq_of_le (by omega) (by omega)

theorem hasSign_compareLengths {m n : Nat} (hm : m < 2 ^ 63) (hn : n < 2 ^ 63) :
    HasSign (compareLengths (.ofNat m) (.ofNat n)).toInt m n := by
  refine (hasSign_sub m n).congr ?_
  rw [← toInt_toInt64_sub hm hn, compareLengths]
  generalize (UInt64.ofNat m - UInt64.ofNat n).toInt64 = diff
  have hMax : Int32.maxValue.toInt64.toInt = 2147483647 := rfl
  have hMin : Int32.minValue.toInt64.toInt = -2147483648 := rfl
  split_ifs with hAbove hBelow
  · rw [Int64.lt_iff_toInt_lt, hMax] at hAbove
    rw [Int.sign_eq_one_of_pos (by omega : 0 < diff.toInt)]
    rfl
  · rw [Int64.lt_iff_toInt_lt, hMin] at hBelow
    rw [Int.sign_eq_neg_one_of_neg (by omega : diff.toInt < 0)]
    rfl
  · rw [Int64.lt_iff_toInt_lt, hMax] at hAbove
    rw [Int64.lt_iff_toInt_lt, hMin] at hBelow
    rw [Int64.toInt_toInt32, Int.bmod_eq_of_le (by omega) (by omega)]

/-! ## Numbers and orders -/

theorem toInt_eq_zero_iff {v : Int32} : v.toInt = 0 ↔ v = 0 := Int32.toInt_inj (y := 0)

theorem toInt_neg_iff {v : Int32} : v.toInt < 0 ↔ v < 0 := (Int32.lt_iff_toInt_lt (y := 0)).symm

/-- The `std::strong_ordering` that a number stands for. -/
def strongOrdering (v : Int32) : Ordering :=
  if v = 0 then .eq else if v < 0 then .lt else .gt

theorem compares_strongOrdering {A : Type} [LT A] {v : Int32} {a b : A}
    (h : HasSign v.toInt a b) : (strongOrdering v).Compares a b := by
  rw [strongOrdering]
  split_ifs with hEq hLt
  · exact h.zero.mp (toInt_eq_zero_iff.mpr hEq)
  · exact h.neg.mp (toInt_neg_iff.mpr hLt)
  · refine h.pos.mp ?_
    have := mt toInt_eq_zero_iff.mp hEq
    have := mt toInt_neg_iff.mp hLt
    omega

theorem beq_zero_iff {A : Type} [LT A] {v : Int32} {a b : A} (h : HasSign v.toInt a b) :
    (v == 0) = true ↔ a = b := by
  rw [beq_iff_eq, ← toInt_eq_zero_iff, h.zero]

/-! ## Characters -/

variable [LinearOrder CharT]

/-- `CharTraits`, as far as it is used.  Of the result of `compare` only the sign is specified. -/
structure CharTraits (CharT : Type) [LinearOrder CharT] where
  compare : List CharT → List CharT → Nat → Int32
  hasSign : ∀ s1 s2 count, count ≤ s1.length → count ≤ s2.length →
    HasSign (compare s1 s2 count).toInt (s1.take count) (s2.take count)

namespace CharTraits

/-- `std::char_traits::compare`. -/
def compareUpTo : List CharT → List CharT → Nat → Int32
  | a :: s1, b :: s2, count + 1 =>
      if a < b then -1 else if b < a then 1 else compareUpTo s1 s2 count
  | _, _, _ => 0

theorem hasSign_compareUpTo (count : Nat) :
    ∀ s1 s2 : List CharT, count ≤ s1.length → count ≤ s2.length →
      HasSign (compareUpTo s1 s2 count).toInt (s1.take count) (s2.take count) := by
  induction count with
  | zero =>
      intro s1 s2 _ _
      rw [List.take_zero, List.take_zero]
      constructor <;> simp [compareUpTo]
  | succ count ih =>
      intro s1 s2 h1 h2
      obtain ⟨a, s1, rfl⟩ := List.exists_cons_of_length_pos (Nat.lt_of_lt_of_le count.succ_pos h1)
      obtain ⟨b, s2, rfl⟩ := List.exists_cons_of_length_pos (Nat.lt_of_lt_of_le count.succ_pos h2)
      have hRest := ih s1 s2 (Nat.le_of_succ_le_succ h1) (Nat.le_of_succ_le_succ h2)
      rw [compareUpTo, List.take_succ_cons, List.take_succ_cons]
      rcases lt_trichotomy a b with hLt | rfl | hGt
      · rw [if_pos hLt]
        constructor <;> simp [List.cons_lt_cons_iff, hLt, hLt.ne, hLt.ne', hLt.asymm]
      · rw [if_neg (lt_irrefl a), if_neg (lt_irrefl a)]
        constructor <;> simp [hRest.neg, hRest.zero, hRest.pos]
      · rw [if_neg hGt.asymm, if_pos hGt]
        constructor <;> simp [List.cons_lt_cons_iff, hGt, hGt.ne, hGt.ne', hGt.asymm]

/-- `std::char_traits`, where the order of the characters is that of `lt`. -/
def std (CharT : Type) [LinearOrder CharT] : CharTraits CharT where
  compare := compareUpTo
  hasSign s1 s2 count := hasSign_compareUpTo count s1 s2

/-- The order of `char`, which is that of unsigned bytes. -/
@[reducible] def charOrder : LinearOrder UInt8 where
  le a b := a ≤ b
  lt a b := a < b
  le_refl a := UInt8.le_refl a
  le_trans _ _ _ := UInt8.le_trans
  lt_iff_le_not_ge _ _ :=
    ⟨fun h => ⟨UInt8.le_of_lt h, UInt8.not_le.mpr h⟩, fun h => UInt8.not_le.mp h.2⟩
  le_antisymm _ _ := UInt8.le_antisymm
  le_total := UInt8.le_total
  toDecidableLE := inferInstance

end CharTraits

/-- The characters are compared in arrays that have more behind the contents, the lengths without
them. -/
theorem hasSign_prefixes (traits : CharTraits CharT) {a b arrayA arrayB : List CharT}
    (hA : a <+: arrayA) (hB : b <+: arrayB) (hLengthA : a.length < 2 ^ 63)
    (hLengthB : b.length < 2 ^ 63) {v : Int32}
    (hCompare : v = traits.compare arrayA arrayB (min a.length b.length)) :
    HasSign (if v = 0 then compareLengths (.ofNat a.length) (.ofNat b.length) else v).toInt a b := by
  obtain ⟨restA, rfl⟩ := hA
  obtain ⟨restB, rfl⟩ := hB
  have hPrefix := traits.hasSign (a ++ restA) (b ++ restB) (min a.length b.length)
    (by simp only [List.length_append]; omega) (by simp only [List.length_append]; omega)
  rw [List.take_append_of_le_length (Nat.min_le_left _ _),
    List.take_append_of_le_length (Nat.min_le_right _ _), ← hCompare] at hPrefix
  simpa only [toInt_eq_zero_iff, apply_ite Int32.toInt] using
    hPrefix.lexicographic (hasSign_compareLengths hLengthA hLengthB)

/-! ## Comparisons -/

variable [Inhabited CharT]

namespace StringView

/-- The constructor from a pointer, behind which the terminator is looked for. -/
def ofPointer (memory : StringView CharT) : StringView CharT where
  data := memory.data.takeWhile (· ≠ default)
  length_lt :=
    Nat.lt_of_le_of_lt (List.takeWhile_prefix _).length_le memory.length_lt

/-- `std::basic_string_view::compare`. -/
def compare (traits : CharTraits CharT) (v o : StringView CharT) : Int32 :=
  let result := traits.compare v.data o.data (min v.length o.length)
  if result = 0 then compareLengths (.ofNat v.length) (.ofNat o.length) else result

end StringView

namespace FixedString

variable {N M : Nat} (traits : CharTraits CharT)

/-- `compare`, against a view. -/
def compareView (a : FixedString CharT N) (o : StringView CharT) : Int32 :=
  let result := traits.compare a.m_str.toList o.data (min a.m_length o.length)
  if result = 0 then compareLengths (.ofNat a.m_length) (.ofNat o.length) else result

/-- `compare`, against a string of any capacity. -/
def compare (a : FixedString CharT N) (o : FixedString CharT M) : Int32 :=
  a.compareView traits o.view

theorem hasSign_compareView (a : FixedString CharT N) (o : StringView CharT) :
    HasSign (a.compareView traits o).toInt a.contents o.data := by
  have hLength := a.length_contents
  have := hasSign_prefixes traits a.contents_prefix (List.prefix_refl o.data)
    (hLength.symm ▸ a.length_lt) o.length_lt rfl
  rwa [hLength] at this

theorem hasSign_compare (a : FixedString CharT N) (o : FixedString CharT M) :
    HasSign (a.compare traits o).toInt a.contents o.contents :=
  hasSign_compareView traits a o.view

/-- `operator<=>`. -/
def threeWay (a o : FixedString CharT N) : Ordering := strongOrdering (a.compare traits o)

/-- `operator<=>`, against a view. -/
def threeWayView (a : FixedString CharT N) (o : StringView CharT) : Ordering :=
  strongOrdering (a.compareView traits o)

/-- `operator==`. -/
def eq (a : FixedString CharT N) (b : FixedString CharT M) : Bool := a.compare traits b == 0

/-- `operator==`, against a view. -/
def eqView (a : FixedString CharT N) (b : StringView CharT) : Bool := a.compareView traits b == 0

/-- `operator==`, against a pointer. -/
def eqPointer (a : FixedString CharT N) (b : StringView CharT) : Bool :=
  a.compareView traits (.ofPointer b) == 0

end FixedString

/-! ## The order -/

/-- What a comparison takes: a string of any capacity or a view. -/
inductive Operand (CharT : Type) [Inhabited CharT] where
  | fixed {N : Nat} (s : FixedString CharT N)
  | view (v : StringView CharT)

namespace Operand

/-- The characters that are compared. -/
def contents : Operand CharT → List CharT
  | fixed s => s.contents
  | view v => v.data

/-- `compare`, in whichever of the operands has it.  Where the string comes second it is asked, and
the result turned around. -/
def compare (traits : CharTraits CharT) : Operand CharT → Operand CharT → Int
  | fixed a, fixed b => (a.compare traits b).toInt
  | fixed a, view v => (a.compareView traits v).toInt
  | view v, fixed a => -(a.compareView traits v).toInt
  | view v, view w => (v.compare traits w).toInt

theorem hasSign_compare (traits : CharTraits CharT) (x y : Operand CharT) :
    HasSign (x.compare traits y) x.contents y.contents := by
  cases x with
  | fixed a =>
      cases y with
      | fixed b => exact a.hasSign_compare traits b
      | view w => exact a.hasSign_compareView traits w
  | view v =>
      cases y with
      | fixed b => exact (b.hasSign_compareView traits v).swap
      | view w =>
          exact hasSign_prefixes traits (List.prefix_refl v.data) (List.prefix_refl w.data)
            v.length_lt w.length_lt rfl

end Operand

/-- Comparing is the lexicographic order of what the constructors store. -/
structure Lexicographic (traits : CharTraits CharT) : Prop where
  empty : ∀ {N : Nat} (memory : Vector CharT (N + 1)),
    (FixedString.empty memory).contents = [] ∧ (FixedString.empty memory).m_str[0]? = some default
  /-- A prefix is stored, with a terminator inside the array. -/
  stored : ∀ {N : Nat} (memory : Vector CharT (N + 1)) (s : StringView CharT),
    (FixedString.ofView memory s).contents = s.data.take N ∧
      (FixedString.ofView memory s).m_length = min s.length N ∧
      (FixedString.ofView memory s).m_str[min s.length N]? = some default
  compare : ∀ {N M : Nat} (a : FixedString CharT N) (b : FixedString CharT M),
    HasSign (a.compare traits b).toInt a.contents b.contents
  compareView : ∀ {N : Nat} (a : FixedString CharT N) (v : StringView CharT),
    HasSign (a.compareView traits v).toInt a.contents v.data
  eq : ∀ {N M : Nat} (a : FixedString CharT N) (b : FixedString CharT M),
    a.eq traits b = true ↔ a.contents = b.contents
  eqView : ∀ {N : Nat} (a : FixedString CharT N) (v : StringView CharT),
    a.eqView traits v = true ↔ a.contents = v.data
  eqPointer : ∀ {N : Nat} (a : FixedString CharT N) (p : StringView CharT),
    a.eqPointer traits p = true ↔ a.contents = p.data.takeWhile (· ≠ default)
  threeWay : ∀ {N : Nat} (a b : FixedString CharT N),
    (a.threeWay traits b).Compares a.contents b.contents
  threeWayView : ∀ {N : Nat} (a : FixedString CharT N) (v : StringView CharT),
    (a.threeWayView traits v).Compares a.contents v.data
  antisymm : ∀ x y : Operand CharT, (y.compare traits x).sign = -(x.compare traits y).sign
  trans : ∀ x y z : Operand CharT,
    x.compare traits y ≤ 0 → y.compare traits z ≤ 0 → x.compare traits z ≤ 0
  strict_trans : ∀ x y z : Operand CharT,
    x.compare traits y < 0 → y.compare traits z < 0 → x.compare traits z < 0
  /-- A copy that has room for all of it takes the place of a string in every comparison. -/
  copied : ∀ {N M : Nat} (memory : Vector CharT (M + 1)) (a : FixedString CharT N)
    (y : Operand CharT), a.m_length ≤ M →
      ((Operand.fixed (.ofFixedString memory a)).compare traits y).sign =
          ((Operand.fixed a).compare traits y).sign ∧
        (y.compare traits (.fixed (.ofFixedString memory a))).sign =
          (y.compare traits (.fixed a)).sign

/-- Operands with the same characters take each other's place. -/
theorem Operand.sign_compare_congr (traits : CharTraits CharT) {x x' y y' : Operand CharT}
    (hx : x.contents = x'.contents) (hy : y.contents = y'.contents) :
    (x.compare traits y).sign = (x'.compare traits y').sign := by
  refine (x.hasSign_compare traits y).sign_eq ?_
  rw [hx, hy]
  exact x'.hasSign_compare traits y'

theorem compare_lexicographic (traits : CharTraits CharT) : Lexicographic traits where
  empty memory := ⟨rfl, (FixedString.empty memory).terminated⟩
  stored memory s :=
    ⟨FixedString.contents_ofView memory s, rfl, (FixedString.ofView memory s).terminated⟩
  compare a b := a.hasSign_compare traits b
  compareView a v := a.hasSign_compareView traits v
  eq a b := beq_zero_iff (a.hasSign_compare traits b)
  eqView a v := beq_zero_iff (a.hasSign_compareView traits v)
  eqPointer a p := beq_zero_iff (a.hasSign_compareView traits (.ofPointer p))
  threeWay a b := compares_strongOrdering (a.hasSign_compare traits b)
  threeWayView a v := compares_strongOrdering (a.hasSign_compareView traits v)
  antisymm x y := (x.hasSign_compare traits y).sign_swap (y.hasSign_compare traits x)
  trans x y z := by
    rw [(x.hasSign_compare traits y).nonpos, (y.hasSign_compare traits z).nonpos,
      (x.hasSign_compare traits z).nonpos]
    exact le_trans
  strict_trans x y z := by
    rw [(x.hasSign_compare traits y).neg, (y.hasSign_compare traits z).neg,
      (x.hasSign_compare traits z).neg]
    exact lt_trans
  copied memory a y h := by
    have hCopy : (Operand.fixed (.ofFixedString memory a)).contents = (Operand.fixed a).contents :=
      FixedString.contents_ofFixedString memory h
    exact ⟨Operand.sign_compare_congr traits hCopy rfl,
      Operand.sign_compare_congr traits rfl hCopy⟩

/-- Bytes have no sign, and what is cut off does not count. -/
example :
    letI := CharTraits.charOrder
    let a : FixedString UInt8 1 := .ofView (.replicate 2 0xCC) ⟨[0xE9, 0x61], by decide⟩
    let b : FixedString UInt8 4 := .ofView (.replicate 5 0xCC) ⟨[0x7A, 0, 0x61], by decide⟩
    0 < a.compare (.std UInt8) b ∧ a.eqView (.std UInt8) ⟨[0xE9], by decide⟩ = true := by
  decide

end Kexplorer.Util

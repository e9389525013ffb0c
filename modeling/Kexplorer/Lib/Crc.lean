import Mathlib.Logic.Basic
import Mathlib.Tactic.TypeStar

/-!
# Reflected cyclic redundancy checks

The remainder of a message is computed bit by bit, from the lowest bit of each
word on: the register moves down by one place, and the polynomial is subtracted
if the bit that falls out differs from the bit of the message.

A table of the remainders of all `n`-bit words takes in `n` bits at once
(`register_lowBits`), and the bits above them in the register are only moved down.
-/

namespace Kexplorer.Lib.Crc

variable {w : Nat}

section

variable (poly : BitVec w)

/-- One bit of the message. -/
def bitStep (r : BitVec w) (bit : Bool) : BitVec w :=
  (r >>> 1) ^^^ if r.getLsbD 0 ^^ bit then poly else 0

/-- The register after the message. -/
def register (r : BitVec w) (message : List Bool) : BitVec w := message.foldl (bitStep poly) r

/-- The reflected CRC with the initial value and the final complement of all ones. -/
def reflected (message : List Bool) : BitVec w := ~~~ register poly (BitVec.allOnes w) message

/-- What `n` steps without a message make of a register. -/
def remainder : Nat → BitVec w → BitVec w
  | 0, r => r
  | n + 1, r => remainder n (bitStep poly r false)

end

/-- The lowest `n` bits of a word, from the lowest on. -/
def lowBits {v : Nat} (n : Nat) (x : BitVec v) : List Bool := (List.range n).map x.getLsbD

variable {poly : BitVec w}

theorem register_append (r : BitVec w) (m m' : List Bool) :
    register poly r (m ++ m') = register poly (register poly r m) m' :=
  List.foldl_append

theorem lowBits_congr {u v : Nat} {x : BitVec u} {y : BitVec v} {n : Nat}
    (h : ∀ i < n, x.getLsbD i = y.getLsbD i) : lowBits n x = lowBits n y :=
  List.map_congr_left fun i hi => h i (List.mem_range.mp hi)

theorem lowBits_succ {v : Nat} (n : Nat) (x : BitVec v) :
    lowBits (n + 1) x = x.getLsbD 0 :: lowBits n (x >>> 1) := by
  rw [lowBits, List.range_succ_eq_map, List.map_cons, List.map_map, lowBits]
  congr 1
  refine List.map_congr_left fun i _ => ?_
  rw [BitVec.getLsbD_ushiftRight, Function.comp_apply, Nat.add_comm]

/-- A word in the register is a message bit by bit: the lowest goes in, and the others move down. -/
theorem bitStep_xor (r x : BitVec w) :
    bitStep poly (r ^^^ x) false = bitStep poly r (x.getLsbD 0) ^^^ (x >>> 1) := by
  rw [bitStep, bitStep, BitVec.ushiftRight_xor_distrib, BitVec.getLsbD_xor, Bool.xor_false,
    BitVec.xor_assoc, BitVec.xor_assoc, BitVec.xor_comm (x >>> 1)]

variable (poly) in
/-- Steps without a message take in the lowest bits of a word that is in the register. -/
theorem remainder_xor (n : Nat) (r x : BitVec w) :
    remainder poly n (r ^^^ x) = register poly r (lowBits n x) ^^^ (x >>> n) := by
  induction n generalizing r x with
  | zero => simp [remainder, register, lowBits]
  | succ n ih =>
      rw [remainder, bitStep_xor, ih, lowBits_succ, ← BitVec.shiftRight_add, Nat.add_comm 1]
      rfl

theorem remainder_eq (n : Nat) (y : BitVec w) :
    remainder poly n y = register poly 0#w (lowBits n y) ^^^ (y >>> n) := by
  rw [← remainder_xor, BitVec.zero_xor]

/-- Masking keeps the lowest bits. -/
theorem getLsbD_and_low (n : Nat) (y : BitVec w) (i : Nat) :
    (y &&& (BitVec.allOnes n).setWidth w).getLsbD i = (decide (i < n) && y.getLsbD i) := by
  by_cases hw : i < w
  · simp [hw, Bool.and_comm]
  · simp [BitVec.getLsbD_of_ge y i (Nat.le_of_not_lt hw)]

/-- The bits above the lowest `n` are only moved down by `n` steps. -/
theorem remainder_and (n : Nat) (y : BitVec w) :
    remainder poly n y =
      remainder poly n (y &&& (BitVec.allOnes n).setWidth w) ^^^ (y >>> n) := by
  have hLow : lowBits n (y &&& (BitVec.allOnes n).setWidth w) = lowBits n y := by
    refine lowBits_congr fun i hi => ?_
    rw [getLsbD_and_low, decide_eq_true hi, Bool.true_and]
  have hHigh : (y &&& (BitVec.allOnes n).setWidth w) >>> n = 0#w := by
    apply BitVec.eq_of_getLsbD_eq
    intro i _
    rw [BitVec.getLsbD_ushiftRight, getLsbD_and_low, decide_eq_false (by omega), Bool.false_and,
      BitVec.getLsbD_zero]
  rw [remainder_eq n y, remainder_eq n (y &&& _), hLow, hHigh, BitVec.xor_zero]

/-- A table of remainders takes in the lowest bits of a word at once, whatever is above them. -/
theorem register_lowBits (n : Nat) (r x : BitVec w) :
    register poly r (lowBits n x) =
      remainder poly n ((r ^^^ x) &&& (BitVec.allOnes n).setWidth w) ^^^ (r >>> n) := by
  have hWord := remainder_xor poly n r x
  rw [remainder_and, BitVec.ushiftRight_xor_distrib, ← BitVec.xor_assoc] at hWord
  exact (BitVec.xor_left_inj _).mp hWord.symm

end Kexplorer.Lib.Crc

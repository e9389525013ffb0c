import Kexplorer.Lib.Bytes
import Kexplorer.Lib.Related
import Mathlib.Algebra.Group.Int.Defs
import Mathlib.Data.Int.Notation
import Mathlib.Data.List.Basic

/-!
# JSON values

The values a JSON text stands for, as rapidjson keeps them: a number is an
integer if it was written as one and fits 64 bits with or without sign, and a
`double` otherwise.  An object is the list of its members in the order of the
text, repeated names included.

The kind of `double` is a parameter.  A parsed document is a `Value Double`; a
`Value Empty` is one without any `double`, which is all that the program ever
writes, and `render` is the text the writer produces for it.

Texts are bytes: the character encoding is not part of the syntax, and a byte
from 0x80 on stands for itself in a string.
-/

namespace Kexplorer.Json

/-- A number that rapidjson keeps as an integer: one that an `int64_t` or a
`uint64_t` can hold. -/
structure Integer where
  val : Int
  fits : -2 ^ 63 ≤ val ∧ val < 2 ^ 64
  deriving DecidableEq

/-- The number in an `int`, which C++ passes on unchanged to the wider types. -/
def Integer.ofInt32 (n : Int32) : Integer where
  val := n.toInt
  fits := by
    have h1 := n.le_toInt
    have h2 := n.toInt_lt
    omega

def Integer.ofUInt32 (n : UInt32) : Integer where
  val := n.toNat
  fits := by
    have := n.toNat_lt
    omega

def Integer.ofInt64 (n : Int64) : Integer where
  val := n.toInt
  fits := by
    have h1 := n.le_toInt
    have h2 := n.toInt_lt
    omega

def Integer.ofUInt64 (n : UInt64) : Integer where
  val := n.toNat
  fits := by
    have := n.toNat_lt
    omega

/-- The bit pattern of an IEEE binary64 number. -/
structure Double where
  bits : UInt64
  deriving DecidableEq, Repr

inductive Value (δ : Type)
  | null
  | bool (b : Bool)
  | integer (n : Integer)
  | double (d : δ)
  | string (s : Bytes)
  | array (items : List (Value δ))
  | object (members : List (Bytes × Value δ))

/-- The same value, its objects with their members in another order. -/
inductive Rearranged {δ : Type} : Value δ → Value δ → Prop
  | refl (v : Value δ) : Rearranged v v
  | array {xs ys : List (Value δ)} : List.Forall₂ Rearranged xs ys →
      Rearranged (.array xs) (.array ys)
  | object {xs ys zs : List (Bytes × Value δ)} : List.Forall₂ (Lib.AtKey Rearranged) xs ys →
      ys.Perm zs → Rearranged (.object xs) (.object zs)

/-- Whether a number is one that C's `int` can hold, `IsInt()`; the other
`Is...()` functions of a document differ in the bounds only. -/
def Integer.isInt (n : Integer) : Bool := decide (-2 ^ 31 ≤ n.val ∧ n.val < 2 ^ 31)

def Integer.isUint (n : Integer) : Bool := decide (0 ≤ n.val ∧ n.val < 2 ^ 32)

def Integer.isInt64 (n : Integer) : Bool := decide (-2 ^ 63 ≤ n.val ∧ n.val < 2 ^ 63)

def Integer.isUint64 (n : Integer) : Bool := decide (0 ≤ n.val ∧ n.val < 2 ^ 64)

@[simp] theorem Integer.val_ofInt32 (n : Int32) : (ofInt32 n).val = n.toInt := rfl

@[simp] theorem Integer.val_ofUInt32 (n : UInt32) : (ofUInt32 n).val = n.toNat := rfl

@[simp] theorem Integer.val_ofInt64 (n : Int64) : (ofInt64 n).val = n.toInt := rfl

@[simp] theorem Integer.val_ofUInt64 (n : UInt64) : (ofUInt64 n).val = n.toNat := rfl

@[simp] theorem Integer.isInt_ofInt32 (n : Int32) : (ofInt32 n).isInt = true :=
  decide_eq_true ⟨n.le_toInt, n.toInt_lt⟩

@[simp] theorem Integer.isUint_ofUInt32 (n : UInt32) : (ofUInt32 n).isUint = true :=
  decide_eq_true ⟨Int.natCast_nonneg _, by
    have := n.toNat_lt
    rw [val_ofUInt32]
    omega⟩

@[simp] theorem Integer.isInt64_ofInt64 (n : Int64) : (ofInt64 n).isInt64 = true :=
  decide_eq_true ⟨n.le_toInt, n.toInt_lt⟩

@[simp] theorem Integer.isUint64_ofUInt64 (n : UInt64) : (ofUInt64 n).isUint64 = true :=
  decide_eq_true ⟨Int.natCast_nonneg _, by
    have := n.toNat_lt
    rw [val_ofUInt64]
    omega⟩

@[ext] theorem Integer.ext {n m : Integer} (h : n.val = m.val) : n = m := by
  cases n
  cases m
  cases h
  rfl

/-- A number that fits comes back from the machine integer. -/
theorem Integer.ofInt32_ofInt {n : Integer} (h : n.isInt = true) :
    ofInt32 (Int32.ofInt n.val) = n := by
  obtain ⟨hLe, hLt⟩ := of_decide_eq_true h
  exact ext (Int32.toInt_ofInt_of_le hLe hLt)

theorem Integer.ofInt64_ofInt {n : Integer} (h : n.isInt64 = true) :
    ofInt64 (Int64.ofInt n.val) = n := by
  obtain ⟨hLe, hLt⟩ := of_decide_eq_true h
  exact ext (Int64.toInt_ofInt_of_le hLe hLt)

theorem Integer.ofUInt32_ofNat {n : Integer} (h : n.isUint = true) :
    ofUInt32 (UInt32.ofNat n.val.toNat) = n := by
  obtain ⟨hLe, hLt⟩ := of_decide_eq_true h
  apply ext
  rw [val_ofUInt32, UInt32.toNat_ofNat', Nat.mod_eq_of_lt (by omega)]
  omega

theorem Integer.ofUInt64_ofNat {n : Integer} (h : n.isUint64 = true) :
    ofUInt64 (UInt64.ofNat n.val.toNat) = n := by
  obtain ⟨hLe, hLt⟩ := of_decide_eq_true h
  apply ext
  rw [val_ofUInt64, UInt64.toNat_ofNat', Nat.mod_eq_of_lt (by omega)]
  omega

/-! ## Text -/

/-- The decimal digits of a number, as `u64toa` writes them. -/
def decimal (n : Nat) : Bytes := (Nat.toDigits 10 n).map fun c => c.toNat.toUInt8

/-- `i64toa`: a minus sign and the digits of the absolute value. -/
def Integer.render (n : Integer) : Bytes :=
  if n.val < 0 then 0x2D :: decimal n.val.natAbs else decimal n.val.natAbs

/-- `hexDigits` of the writer. -/
def hexDigit (n : UInt8) : UInt8 := if n < 10 then 0x30 + n else 0x37 + n

/-- A byte of a string as `WriteString` puts it, by its table `escape`. -/
def escapeByte (c : UInt8) : Bytes :=
  if c = 0x22 then [0x5C, 0x22]
  else if c = 0x5C then [0x5C, 0x5C]
  else if c = 0x08 then [0x5C, 0x62]
  else if c = 0x09 then [0x5C, 0x74]
  else if c = 0x0A then [0x5C, 0x6E]
  else if c = 0x0C then [0x5C, 0x66]
  else if c = 0x0D then [0x5C, 0x72]
  else if c < 0x20 then [0x5C, 0x75, 0x30, 0x30, hexDigit (c >>> 4), hexDigit (c &&& 0xF)]
  else [c]

/-- The escaped bytes of a string. -/
def escape : Bytes → Bytes
  | [] => []
  | c :: s => escapeByte c ++ escape s

/-- `WriteString`: the escaped bytes between quotation marks. -/
def quote (s : Bytes) : Bytes := 0x22 :: (escape s ++ [0x22])

private theorem digitChar_byte : ∀ d, d < 10 →
    (Nat.digitChar d).toNat.toUInt8 = 0x30 + d.toUInt8 := by
  decide

theorem decimal_of_lt {n : Nat} (h : n < 10) : decimal n = [0x30 + n.toUInt8] := by
  rw [decimal, Nat.toDigits_of_lt_base h, List.map_singleton, digitChar_byte n h]

theorem decimal_of_le {n : Nat} (h : 10 ≤ n) :
    decimal n = decimal (n / 10) ++ [0x30 + (n % 10).toUInt8] := by
  rw [decimal, Nat.toDigits_of_base_le (by decide) h, List.map_append, List.map_singleton,
    digitChar_byte _ (Nat.mod_lt n (by decide)), decimal]

namespace Value

mutual

/-- The text the writer produces for a value. -/
def render : Value Empty → Bytes
  | .null => ascii "null"
  | .bool b => if b then ascii "true" else ascii "false"
  | .integer n => n.render
  | .string s => quote s
  | .array items => 0x5B :: (renderItems items ++ [0x5D])
  | .object members => 0x7B :: (renderMembers members ++ [0x7D])

/-- The items of an array, with the commas between them. -/
def renderItems : List (Value Empty) → Bytes
  | [] => []
  | v :: items => render v ++ renderItemsTail items

/-- The items behind the first one, each with its comma. -/
def renderItemsTail : List (Value Empty) → Bytes
  | [] => []
  | v :: items => 0x2C :: (render v ++ renderItemsTail items)

/-- The members of an object, with the commas between them. -/
def renderMembers : List (Bytes × Value Empty) → Bytes
  | [] => []
  | (name, v) :: members => quote name ++ (0x3A :: (render v ++ renderMembersTail members))

/-- The members behind the first one, each with its comma. -/
def renderMembersTail : List (Bytes × Value Empty) → Bytes
  | [] => []
  | (name, v) :: members =>
      0x2C :: (quote name ++ (0x3A :: (render v ++ renderMembersTail members)))

end

mutual

/-- A value without `double`, seen as a document. -/
def lift {δ : Type} : Value Empty → Value δ
  | .null => .null
  | .bool b => .bool b
  | .integer n => .integer n
  | .string s => .string s
  | .array items => .array (liftItems items)
  | .object members => .object (liftMembers members)

def liftItems {δ : Type} : List (Value Empty) → List (Value δ)
  | [] => []
  | v :: items => lift v :: liftItems items

def liftMembers {δ : Type} : List (Bytes × Value Empty) → List (Bytes × Value δ)
  | [] => []
  | (name, v) :: members => (name, lift v) :: liftMembers members

end

theorem liftItems_eq_map {δ : Type} (items : List (Value Empty)) :
    (liftItems items : List (Value δ)) = items.map lift := by
  induction items with
  | nil => rfl
  | cons v items ih => rw [liftItems, ih, List.map_cons]

theorem liftMembers_eq_map {δ : Type} (members : List (Bytes × Value Empty)) :
    (liftMembers members : List (Bytes × Value δ)) = members.map fun m => (m.1, m.2.lift) := by
  induction members with
  | nil => rfl
  | cons m members ih => rw [liftMembers, ih, List.map_cons]

/-- Induction with a hypothesis for every item and every member. -/
@[elab_as_elim]
theorem induction {δ : Type} {P : Value δ → Prop} (hNull : P .null) (hBool : ∀ b, P (.bool b))
    (hInteger : ∀ n, P (.integer n)) (hDouble : ∀ d, P (.double d))
    (hString : ∀ s, P (.string s)) (hArray : ∀ items, (∀ v ∈ items, P v) → P (.array items))
    (hObject : ∀ members, (∀ m ∈ members, P m.2) → P (.object members)) (v : Value δ) : P v :=
  @Value.rec δ P (fun items => ∀ v ∈ items, P v) (fun members => ∀ m ∈ members, P m.2)
    (fun m => P m.2) hNull hBool hInteger hDouble hString hArray hObject (by simp)
    (fun _ _ hHead hItems => List.forall_mem_cons.mpr ⟨hHead, hItems⟩) (by simp)
    (fun _ _ hMember hMembers => List.forall_mem_cons.mpr ⟨hMember, hMembers⟩)
    (fun _ _ hValue => hValue) v

example : render (.object [(ascii "a", .array [.bool true, .integer ⟨-3, by decide⟩]),
    (ascii "\"\n", .string [0x01, 0x7B])]) = ascii "\x7b\"a\":[true,-3],\"\\\"\\n\":\"\\u0001\x7b\"\x7d" := by
  rfl

/-! ## Lists of items and members, one more at the end -/

theorem renderItemsTail_append (l r : List (Value Empty)) :
    renderItemsTail (l ++ r) = renderItemsTail l ++ renderItemsTail r := by
  induction l with
  | nil => simp [renderItemsTail]
  | cons v l ih => simp [renderItemsTail, ih]

theorem renderMembersTail_append (l r : List (Bytes × Value Empty)) :
    renderMembersTail (l ++ r) = renderMembersTail l ++ renderMembersTail r := by
  induction l with
  | nil => simp [renderMembersTail]
  | cons m l ih =>
      obtain ⟨name, v⟩ := m
      simp [renderMembersTail, ih]

end Value

end Kexplorer.Json

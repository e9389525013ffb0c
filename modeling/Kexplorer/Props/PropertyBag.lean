import Kexplorer.Json.Value
import Kexplorer.Util.Crc32

/-!
# Properties and property bags

A property is a value with an id; the declarations of properties tie an id to a
name and a type.  A property bag is a tree of properties: an array or a table of
bags, each with a name of its own.

A table is an `unordered_map`, and its list of members is the order in which an
iteration happens to visit them.
-/

namespace Kexplorer

/-- `Kes::CallbackResult`. -/
inductive CallbackResult
  | Continue
  | Abort
  deriving DecidableEq, Repr

namespace Props

abbrev PropId := UInt32

/-- `PropId(-1)`. -/
def InvalidPropId : PropId := 0xFFFFFFFF

/-- The types that the code asks a `type_info` for, and the others. -/
inductive TypeInfo
  | bool
  | int
  | uint
  | int64
  | uint64
  | double
  | string
  | array
  | table
  | other (name : Bytes)
  deriving DecidableEq

/-- `type_info::name()`, which is up to the implementation: the letter that the
Itanium ABI has for a fundamental type, and the type's own name otherwise. -/
def TypeInfo.name : TypeInfo → Bytes
  | .bool => ascii "b"
  | .int => ascii "i"
  | .uint => ascii "j"
  | .int64 => ascii "l"
  | .uint64 => ascii "m"
  | .double => ascii "d"
  | .string => ascii "std::string"
  | .array => ascii "Kes::PropertyBag::Array"
  | .table => ascii "Kes::PropertyBag::Table"
  | .other name => name

/-- A `std::any` with a value in it. -/
inductive Any
  | bool (b : Bool)
  | int (n : Int32)
  | uint (n : UInt32)
  | int64 (n : Int64)
  | uint64 (n : UInt64)
  | double (d : Json.Double)
  | string (s : Bytes)
  | other (name : Bytes)
  deriving DecidableEq

/-- `any::type()`. -/
def Any.type : Any → TypeInfo
  | .bool _ => .bool
  | .int _ => .int
  | .uint _ => .uint
  | .int64 _ => .int64
  | .uint64 _ => .uint64
  | .double _ => .double
  | .string _ => .string
  | .other name => .other name

/-- What an `IPropertyInfo` answers to `id()`, `idstr()`, `type()` and
`base()`. -/
structure PropertyInfo where
  id : PropId
  idstr : CString
  type : TypeInfo
  base : TypeInfo
  deriving DecidableEq

/-- `PropertyInfo<type, KES_PROPID(s), ..., base>`: the id is the checksum of
the name. -/
def PropertyInfo.declare (type : TypeInfo) (s : String) (base : TypeInfo := type) :
    PropertyInfo where
  id := Util.crc32 (literal s).bytes
  idstr := literal s
  type := type
  base := base

/-- `Kes::Property`. -/
structure Property where
  id : PropId := InvalidPropId
  value : Option Any := none
  info : Option PropertyInfo := none
  deriving DecidableEq

/-- `Kes::PropertyBag`: the name and the variant. -/
inductive PropertyBag
  | empty
  | property (name : Bytes) (prop : Property)
  | array (name : Bytes) (items : List PropertyBag)
  | table (name : Bytes) (members : List (Bytes × PropertyBag))

namespace PropertyBag

def name : PropertyBag → Bytes
  | .empty => []
  | .property name _ => name
  | .array name _ => name
  | .table name _ => name

def isEmpty : PropertyBag → Bool
  | .empty => true
  | _ => false

def isProperty : PropertyBag → Bool
  | .property _ _ => true
  | _ => false

def isArray : PropertyBag → Bool
  | .array _ _ => true
  | _ => false

def isTable : PropertyBag → Bool
  | .table _ _ => true
  | _ => false

end PropertyBag

/-! ## Tables -/

namespace UnorderedMap

/-- `unordered_map::find`. -/
def find {κ α : Type} [DecidableEq κ] (members : List (κ × α)) (key : κ) : Option α :=
  members.lookup key

/-- `unordered_map::insert`: a key that is there already keeps its value. -/
def insert {κ α : Type} [DecidableEq κ] (members : List (κ × α)) (key : κ) (value : α) :
    List (κ × α) :=
  if (find members key).isSome then members else members ++ [(key, value)]

/-- `unordered_map::erase`. -/
def erase {κ α : Type} [DecidableEq κ] (members : List (κ × α)) (key : κ) : List (κ × α) :=
  members.filter fun m => m.1 ≠ key

section

variable {κ α : Type} [DecidableEq κ]

@[simp] theorem find_nil (key : κ) : find ([] : List (κ × α)) key = none := rfl

theorem find_cons (members : List (κ × α)) (k key : κ) (a : α) :
    find ((k, a) :: members) key = if key = k then some a else find members key := by
  by_cases h : key = k
  · simp [find, List.lookup_cons, h]
  · have hne : (key == k) = false := by simpa using h
    simp [find, List.lookup_cons, h, hne]

theorem find_append (members : List (κ × α)) (k key : κ) (a : α) :
    find (members ++ [(k, a)]) key =
      (find members key).or (if key = k then some a else none) := by
  induction members with
  | nil => simp [find_cons]
  | cons m members ih =>
      rw [List.cons_append, find_cons, find_cons, ih]
      split <;> simp

theorem mem_of_find {members : List (κ × α)} {key : κ} {a : α} (h : find members key = some a) :
    (key, a) ∈ members := by
  induction members with
  | nil => cases h
  | cons m members ih =>
      rw [find_cons] at h
      split at h
      · rename_i hKey
        cases h
        rw [hKey]
        exact List.mem_cons_self
      · exact List.mem_cons_of_mem _ (ih h)

theorem find_insert (members : List (κ × α)) (k key : κ) (a : α) :
    find (insert members k a) key = (find members key).or (if key = k then some a else none) := by
  unfold insert
  split
  · rename_i hSome
    by_cases h : key = k
    · obtain ⟨b, hb⟩ := Option.isSome_iff_exists.mp hSome
      simp [h, hb]
    · simp [h]
  · exact find_append members k key a

theorem find_erase (members : List (κ × α)) (k key : κ) :
    find (erase members k) key = if key = k then none else find members key := by
  unfold erase
  induction members with
  | nil => simp
  | cons m members ih =>
      obtain ⟨k', a⟩ := m
      rw [List.filter_cons, find_cons]
      by_cases hErased : k' = k
      · subst hErased
        simp only [ne_eq, not_true_eq_false, decide_false, Bool.false_eq_true, if_false, ih]
        split <;> rfl
      · simp only [ne_eq, hErased, not_false_eq_true, decide_true, if_true, find_cons, ih]
        split
        · rename_i hKey
          rw [if_neg fun h => hErased (hKey.symm.trans h)]
        · rfl

theorem find_eq_none {members : List (κ × α)} {key : κ} :
    find members key = none ↔ key ∉ members.map Prod.fst := by
  induction members with
  | nil => simp
  | cons m members ih =>
      rw [find_cons]
      split
      · simp_all
      · simp_all

theorem find_isSome {members : List (κ × α)} {key : κ} :
    (find members key).isSome = true ↔ key ∈ members.map Prod.fst := by
  rw [← not_iff_not, Bool.not_eq_true, Option.isSome_eq_false_iff, Option.isNone_iff_eq_none]
  exact find_eq_none

/-- With distinct keys, the members are what is found. -/
theorem mem_iff_find {members : List (κ × α)} (h : (members.map Prod.fst).Nodup) {m : κ × α} :
    m ∈ members ↔ find members m.1 = some m.2 := by
  induction members with
  | nil => simp
  | cons m' members ih =>
      obtain ⟨key, a⟩ := m
      obtain ⟨k, b⟩ := m'
      rw [List.map_cons, List.nodup_cons] at h
      rw [find_cons, List.mem_cons, ih h.2]
      by_cases hKey : key = k
      · subst hKey
        have hNone : find members key = none := find_eq_none.mpr h.1
        simp [hNone, eq_comm]
      · simp [hKey]

/-- Inserting keeps the keys distinct. -/
theorem nodup_insert {members : List (κ × α)} (h : (members.map Prod.fst).Nodup) (k : κ) (a : α) :
    ((insert members k a).map Prod.fst).Nodup := by
  unfold insert
  split
  · exact h
  · rename_i hNone
    rw [find_isSome] at hNone
    rw [List.map_append, List.map_singleton, List.nodup_append]
    refine ⟨h, by simp, ?_⟩
    intro j hj l hl hEq
    rw [List.mem_singleton] at hl
    subst hl hEq
    exact hNone hj

/-- A map whose values are replaced, each by what its key makes of it. -/
theorem find_map {β : Type} (f : κ → α → β) (members : List (κ × α)) (key : κ) :
    find (members.map fun m => (m.1, f m.1 m.2)) key = (find members key).map (f key) := by
  induction members with
  | nil => rfl
  | cons m members ih =>
      obtain ⟨k, a⟩ := m
      rw [List.map_cons, find_cons, find_cons, ih]
      split
      · rename_i hKey
        rw [hKey]
        rfl
      · rfl

end

end UnorderedMap

end Props

end Kexplorer

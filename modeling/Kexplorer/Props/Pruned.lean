import Kexplorer.Props.Exact
import Mathlib.Algebra.GroupWithZero.Nat

/-!
# The document without its rejected parts

The decoder goes through a document by the first member of each name and through
the arrays it expects, and `pruned` is what remains of the document if every
scalar that it rejects is left out.  A condition on places and values holds
`Everywhere` if it does on all that the decoder reaches.
-/

namespace Kexplorer.Props

open Kexplorer.Json Kexplorer.Lib

/-! ## The nodes of a value -/

mutual

/-- The number of values and names in a value. -/
def nodes {δ : Type} : Value δ → Nat
  | .array items => 1 + nodesOfItems items
  | .object members => 1 + nodesOfMembers members
  | _ => 1

def nodesOfItems {δ : Type} : List (Value δ) → Nat
  | [] => 0
  | v :: items => nodes v + nodesOfItems items

def nodesOfMembers {δ : Type} : List (Bytes × Value δ) → Nat
  | [] => 0
  | (_, v) :: members => 1 + nodes v + nodesOfMembers members

end

section

variable (reg : Registry)

/-- The decoder takes a scalar at a place. -/
def Taken (place : Place) (v : JsonValue) : Prop :=
  match place with
  | .item type => (getAs type v).isSome
  | place => (propertyOf reg place.name v).isSome

instance (place : Place) (v : JsonValue) : Decidable (Taken reg place v) := by
  unfold Taken
  split <;> infer_instance

mutual

/-- What remains of a value at a place: of an object the first member of each name, of an array its
items, none of them if none is expected, and of these nothing that is rejected. -/
def pruned (place : Place) : JsonValue → Option JsonValue
  | .object members => some (.object (prunedMembers members []))
  | .array items =>
      match place with
      | .item _ => none
      | place =>
          some (.array (match place.itemType reg with
            | some type => prunedItems type items
            | none => []))
  | v => if Taken reg place v then some v else none

def prunedItems (type : TypeInfo) : List JsonValue → List JsonValue
  | [] => []
  | v :: items => (pruned (.item type) v).toList ++ prunedItems type items

def prunedMembers : List (Bytes × JsonValue) → List Bytes → List (Bytes × JsonValue)
  | [], _ => []
  | (key, v) :: members, seen =>
      if key ∈ seen then prunedMembers members seen
      else (pruned (.member key) v).toList.map (key, ·) ++ prunedMembers members (key :: seen)

end

end

variable {reg : Registry}

section

variable (reg : Registry)

end

end Kexplorer.Props

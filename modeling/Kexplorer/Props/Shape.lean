import Kexplorer.Lib.Related
import Kexplorer.Props.PropertyBag
import Mathlib.Data.List.Perm.Basic

/-!
# The shape of a bag

Statements about a whole bag.  `Alike` relates two bags that differ only in the
order of their tables' members and, as far as a given relation allows, in their
properties.  `Shape` collects conditions on the parts of a bag, and `Shape.Holds`
says that they hold all through it, with distinct keys in every table.

`Alike.holds_iff` is the connection: a shape that does not see the difference
between related properties holds of both bags or of neither.
-/

namespace Kexplorer.Props

open Kexplorer.Lib

/-! ## Induction -/

/-- Induction with a hypothesis for every item and every member. -/
@[elab_as_elim]
theorem PropertyBag.induction {P : PropertyBag → Prop} (hEmpty : P .empty)
    (hProperty : ∀ name prop, P (.property name prop))
    (hArray : ∀ name items, (∀ bag ∈ items, P bag) → P (.array name items))
    (hTable : ∀ name members, (∀ m ∈ members, P m.2) → P (.table name members))
    (bag : PropertyBag) : P bag :=
  @PropertyBag.rec P (fun items => ∀ bag ∈ items, P bag) (fun members => ∀ m ∈ members, P m.2)
    (fun m => P m.2) hEmpty hProperty hArray hTable (by simp)
    (fun _ _ hBag hItems => List.forall_mem_cons.mpr ⟨hBag, hItems⟩) (by simp)
    (fun _ _ hMember hMembers => List.forall_mem_cons.mpr ⟨hMember, hMembers⟩)
    (fun _ _ hBag => hBag) bag

/-! ## Bags that are alike -/

/-- The same names, shapes and keys, arrays in the same order and tables in any,
and properties related by `R`. -/
inductive Alike (R : Property → Property → Prop) : PropertyBag → PropertyBag → Prop
  | empty : Alike R .empty .empty
  | property {name : Bytes} {p q : Property} : R p q →
      Alike R (.property name p) (.property name q)
  | array {name : Bytes} {xs ys : List PropertyBag} : List.Forall₂ (Alike R) xs ys →
      Alike R (.array name xs) (.array name ys)
  | table {name : Bytes} {xs ys zs : List (Bytes × PropertyBag)} :
      List.Forall₂ (AtKey (Alike R)) xs ys → ys.Perm zs →
      Alike R (.table name xs) (.table name zs)

/-- The same bag, its tables listed in another order. -/
abbrev Reordered : PropertyBag → PropertyBag → Prop := Alike Eq

/-- The order in which the tables of a bag are visited. -/
structure Traversal where
  visit : PropertyBag → PropertyBag
  reordered : ∀ bag, Reordered bag (visit bag)

/-- Equal bags as far as names, keys, shapes and the values with their types go: the same
keys and items, and scalars with the same `std::any`. -/
abbrev Same : PropertyBag → PropertyBag → Prop := Alike fun p q => p.value = q.value

/-- A bag is alike itself. -/
theorem Alike.refl {R : Property → Property → Prop} (hR : ∀ p, R p p) (bag : PropertyBag) :
    Alike R bag bag := by
  induction bag using PropertyBag.induction with
  | hEmpty => exact .empty
  | hProperty name prop => exact .property (hR prop)
  | hArray name items ih => exact .array (List.forall₂_same.mpr ih)
  | hTable name members ih =>
      exact .table (List.forall₂_same.mpr fun m hm => .mk (ih m hm)) (.refl _)

/-- Every table as it is. -/
def Traversal.inOrder : Traversal := ⟨id, Alike.refl fun _ => rfl⟩

theorem Traversal.visit_table (order : Traversal) (name : Bytes)
    (members : List (Bytes × PropertyBag)) :
    ∃ members', order.visit (.table name members) = .table name members' := by
  have hOrder := order.reordered (.table name members)
  generalize order.visit (.table name members) = bag at hOrder ⊢
  cases hOrder with
  | table _ _ => exact ⟨_, rfl⟩

theorem Alike.name_eq {R : Property → Property → Prop} {bag bag' : PropertyBag}
    (h : Alike R bag bag') : bag.name = bag'.name := by
  cases h <;> rfl

theorem Alike.isEmpty_eq {R : Property → Property → Prop} {bag bag' : PropertyBag}
    (h : Alike R bag bag') : bag.isEmpty = bag'.isEmpty := by
  cases h <;> rfl

theorem Alike.symm {R : Property → Property → Prop} {bag bag' : PropertyBag}
    (h : Alike R bag bag') : Alike (fun p q => R q p) bag' bag := by
  induction bag using PropertyBag.induction generalizing bag' with
  | hEmpty =>
      cases h
      exact .empty
  | hProperty name prop =>
      cases h with
      | property hProp => exact .property hProp
  | hArray name items ih =>
      cases h with
      | array hItems => exact .array (flip_forall₂ hItems fun bag hBag bag' => ih bag hBag)
  | hTable name members ih =>
      cases h with
      | @table _ _ ys zs hMembers hPerm =>
          have hFlip : List.Forall₂ (AtKey (Alike fun p q => R q p)) ys members := by
            refine flip_forall₂ hMembers fun m hm m' hAt => ?_
            obtain ⟨hAlike⟩ := hAt
            exact .mk (ih _ hm hAlike)
          obtain ⟨us, hUs, hBack⟩ := List.perm_comp_forall₂ hPerm.symm hFlip
          exact .table hUs hBack

theorem Alike.trans {R R' R'' : Property → Property → Prop}
    (hR : ∀ p q r, R p q → R' q r → R'' p r) {bag bag' bag'' : PropertyBag}
    (h : Alike R bag bag') (h' : Alike R' bag' bag'') : Alike R'' bag bag'' := by
  induction bag using PropertyBag.induction generalizing bag' bag'' with
  | hEmpty =>
      cases h
      cases h'
      exact .empty
  | hProperty name prop =>
      cases h with
      | property hProp =>
          cases h' with
          | property hProp' => exact .property (hR _ _ _ hProp hProp')
  | hArray name items ih =>
      cases h with
      | array hItems =>
          cases h' with
          | array hItems' =>
              exact .array (comp_forall₂ hItems hItems' fun bag hBag _ _ => ih bag hBag)
  | hTable name members ih =>
      cases h with
      | table hMembers hPerm =>
          cases h' with
          | table hMembers' hPerm' =>
              obtain ⟨vs, hVs, hBack⟩ := List.perm_comp_forall₂ hPerm hMembers'
              refine .table (comp_forall₂ hMembers hVs fun m hm _ _ hAt hAt' => ?_)
                (hBack.trans hPerm')
              obtain ⟨hAlike⟩ := hAt
              obtain ⟨hAlike'⟩ := hAt'
              exact .mk (ih _ hm hAlike hAlike')

/-! ## Shapes -/

/-- Conditions on the parts of a bag: on a scalar and its name, on the name of an array, on
a scalar item and the name of its array, and on a key and the name of the bag under it. -/
structure Shape where
  scalar : Bytes → Property → Prop
  arrayName : Bytes → Prop
  item : Bytes → Property → Prop
  key : Bytes → Bytes → Prop

namespace Shape

variable (S : Shape)

/-- An item is an unnamed scalar or an unnamed table; `nested` is the condition on the latter. -/
def Item (arrayName : Bytes) (bag : PropertyBag) (nested : Prop) : Prop :=
  match bag with
  | .property name prop => name = [] ∧ S.item arrayName prop
  | .table name _ => name = [] ∧ nested
  | _ => False

mutual

/-- The conditions hold all through a bag. -/
def Holds : PropertyBag → Prop
  | .empty => False
  | .property name prop => S.scalar name prop
  | .array name items => S.arrayName name ∧ Items name items
  | .table _ members => (members.map Prod.fst).Nodup ∧ Members members

def Items (arrayName : Bytes) : List PropertyBag → Prop
  | [] => True
  | bag :: items => S.Item arrayName bag (Holds bag) ∧ Items arrayName items

def Members : List (Bytes × PropertyBag) → Prop
  | [] => True
  | (key, bag) :: members => (S.key key bag.name ∧ Holds bag) ∧ Members members

end

variable {S}

theorem items_iff {arrayName : Bytes} {items : List PropertyBag} :
    S.Items arrayName items ↔ ∀ bag ∈ items, S.Item arrayName bag (S.Holds bag) := by
  induction items with
  | nil => simp [Items]
  | cons bag items ih => simp [Items, ih]

theorem members_iff {members : List (Bytes × PropertyBag)} :
    S.Members members ↔ ∀ m ∈ members, S.key m.1 m.2.name ∧ S.Holds m.2 := by
  induction members with
  | nil => simp [Members]
  | cons m members ih => simp [Members, ih]

/-- A shape that implies another. -/
structure Implies (S S' : Shape) : Prop where
  scalar : ∀ name prop, S.scalar name prop → S'.scalar name prop
  arrayName : ∀ name, S.arrayName name → S'.arrayName name
  item : ∀ name prop, S.item name prop → S'.item name prop
  key : ∀ key name, S.key key name → S'.key key name

theorem Item.mono {S S' : Shape} (h : S.Implies S') {arrayName : Bytes} {bag : PropertyBag}
    {nested nested' : Prop} (hNested : nested → nested') (hItem : S.Item arrayName bag nested) :
    S'.Item arrayName bag nested' := by
  cases bag with
  | property name prop => exact ⟨hItem.1, h.item _ _ hItem.2⟩
  | table name members => exact ⟨hItem.1, hNested hItem.2⟩
  | _ => exact hItem

theorem Holds.mono {S S' : Shape} (h : S.Implies S') {bag : PropertyBag} :
    S.Holds bag → S'.Holds bag := by
  induction bag using PropertyBag.induction with
  | hEmpty => exact id
  | hProperty name prop => exact h.scalar name prop
  | hArray name items ih =>
      simp only [Holds, items_iff]
      rintro ⟨hName, hItems⟩
      exact ⟨h.arrayName name hName, fun bag hBag => (hItems bag hBag).mono h (ih bag hBag)⟩
  | hTable name members ih =>
      simp only [Holds, members_iff]
      rintro ⟨hNodup, hMembers⟩
      refine ⟨hNodup, fun m hm => ?_⟩
      obtain ⟨hKey, hBag⟩ := hMembers m hm
      exact ⟨h.key _ _ hKey, ih m hm hBag⟩

end Shape

/-- A shape that sees no difference between related properties. -/
structure Shape.Ignores (S : Shape) (R : Property → Property → Prop) : Prop where
  scalar : ∀ name p q, R p q → (S.scalar name p ↔ S.scalar name q)
  item : ∀ name p q, R p q → (S.item name p ↔ S.item name q)

theorem Shape.ignores_eq (S : Shape) : S.Ignores Eq where
  scalar name p q h := by rw [h]
  item name p q h := by rw [h]

theorem Alike.item_iff {S : Shape} {R : Property → Property → Prop} (hS : S.Ignores R)
    {arrayName : Bytes} {bag bag' : PropertyBag} (h : Alike R bag bag') {nested nested' : Prop}
    (hNested : nested ↔ nested') :
    S.Item arrayName bag nested ↔ S.Item arrayName bag' nested' := by
  cases h with
  | property hProp => exact and_congr Iff.rfl (hS.item _ _ _ hProp)
  | table hMembers hPerm => exact and_congr Iff.rfl hNested
  | _ => exact Iff.rfl

theorem Alike.holds_iff {S : Shape} {R : Property → Property → Prop} (hS : S.Ignores R)
    {bag bag' : PropertyBag} (h : Alike R bag bag') : S.Holds bag ↔ S.Holds bag' := by
  induction bag using PropertyBag.induction generalizing bag' with
  | hEmpty =>
      cases h
      exact Iff.rfl
  | hProperty name prop =>
      cases h with
      | property hProp => exact hS.scalar _ _ _ hProp
  | hArray name items ih =>
      cases h with
      | array hItems =>
          simp only [Shape.Holds, Shape.items_iff]
          refine and_congr Iff.rfl (forall_mem_iff_of_forall₂ hItems fun bag hBag bag' hAlike => ?_)
          exact hAlike.item_iff hS (ih bag hBag hAlike)
  | hTable name members ih =>
      cases h with
      | table hMembers hPerm =>
          simp only [Shape.Holds, Shape.members_iff]
          rw [keys_eq_of_atKey hMembers, (hPerm.map Prod.fst).nodup_iff]
          refine and_congr Iff.rfl ?_
          refine (forall_mem_iff_of_forall₂ hMembers fun m hm m' hAlike => ?_).trans
            (forall_congr' fun m => by rw [hPerm.mem_iff])
          rw [hAlike.fst_eq, hAlike.snd.name_eq]
          exact and_congr Iff.rfl (ih m hm hAlike.snd)

end Kexplorer.Props

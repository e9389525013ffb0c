import Kexplorer.Props.Codec

/-!
# Bags that the encoder does not throw at

The encoder throws if a property has no value, or one that its type cannot be cast to.
A `castable` bag has neither: every scalar has a value of the type that the encoder goes
by.  Its names and keys are free, so that an assertion may still fail, and that is then
the only way in which encoding fails.
-/

namespace Kexplorer.Props

open Kexplorer.Json

/-- No exception comes out. -/
def ThrowsNothing {α : Type} (x : Encoding α) : Prop := ∀ what, x ≠ .error (.exception what)

namespace ThrowsNothing

variable {α β : Type}

theorem ok (a : α) : ThrowsNothing (.ok a : Encoding α) := fun _ h => by cases h

theorem assertion : ThrowsNothing (.error .assertion : Encoding α) := fun _ h => by cases h

theorem assert (condition : Bool) : ThrowsNothing (Props.assert condition) := by
  unfold Props.assert
  split
  · exact .ok ()
  · exact .assertion

theorem put (w : Option Writer) : ThrowsNothing (Props.put w) := by
  cases w with
  | none => exact .assertion
  | some w => exact .ok w

/-- One step after the other. -/
theorem bind {x : Encoding α} {f : α → Encoding β} (hx : ThrowsNothing x)
    (hf : ∀ a, ThrowsNothing (f a)) : ThrowsNothing (x >>= f) := by
  intro what h
  cases x with
  | error e =>
      refine hx what ?_
      cases h
      rfl
  | ok a => exact hf a what h

/-- What is neither a result nor an exception is a failed assertion. -/
theorem eq_assertion {x : Encoding α} (h : ThrowsNothing x) (hNot : ∀ a, x ≠ .ok a) :
    x = .error .assertion := by
  cases x with
  | ok a => exact absurd rfl (hNot a)
  | error failure =>
      cases failure with
      | assertion => rfl
      | exception what => exact absurd rfl (h what)

end ThrowsNothing

section

variable (reg : Registry)

/-- Every scalar has a value of the type that the encoder goes by. -/
def castable : Shape where
  scalar _ prop := IsWritten reg prop
  arrayName _ := True
  item _ prop := IsWritten reg prop
  key _ _ := True

theorem writable_implies_castable : (writable reg).Implies (castable reg) where
  scalar _ _ h := h
  arrayName _ _ := trivial
  item _ _ h := h
  key _ _ _ := trivial

end

variable {reg : Registry}

theorem writeName_throwsNothing (name : Bytes) (w : Writer) : ThrowsNothing (writeName name w) := by
  unfold writeName
  split
  · exact .put _
  · exact .ok w

/-- The cast to the type of the value succeeds. -/
theorem valueToJson_throwsNothing (value : Any) (w : Writer) :
    ThrowsNothing (valueToJson value.type value w) := by
  cases value with
  | double d => exact .ok w
  | other type => exact .ok w
  | _ => exact .put _

theorem propertyToJson_throwsNothing {name : Bytes} {prop : Property} (h : IsWritten reg prop)
    (w : Writer) : ThrowsNothing (propertyToJson reg (.property name prop) w) := by
  obtain ⟨value, hValue, -, hType⟩ := h
  unfold propertyToJson
  dsimp only
  rw [hValue]
  refine ThrowsNothing.bind (.assert _) fun _ => ?_
  dsimp only
  rw [hType]
  exact valueToJson_throwsNothing value w

theorem arrayToJson_throwsNothing {loop : Writer → Encoding Writer}
    (hLoop : ∀ w, ThrowsNothing (loop w)) (bag : PropertyBag) (w : Writer) :
    ThrowsNothing (arrayToJson bag loop w) :=
  .bind (.assert _) fun _ => .bind (.put _) fun w => .bind (hLoop w) fun _ => .put _

theorem tableToJson_throwsNothing {loop : Writer → Encoding Writer}
    (hLoop : ∀ w, ThrowsNothing (loop w)) (bag : PropertyBag) (w : Writer) :
    ThrowsNothing (tableToJson bag loop w) :=
  .bind (.assert _) fun _ => .bind (.put _) fun w => .bind (hLoop w) fun _ => .put _

/-- The loop of an array throws nothing if no item does. -/
theorem itemsToJson_throwsNothing {items : List PropertyBag}
    (h : ∀ bag ∈ items, ∀ w, ThrowsNothing (bagToJson reg bag w)) :
    ∀ w, ThrowsNothing (itemsToJson reg items w) := by
  induction items with
  | nil => exact fun w => .ok w
  | cons bag items ih =>
      obtain ⟨hBag, hItems⟩ := List.forall_mem_cons.mp h
      intro w
      rw [itemsToJson]
      refine ThrowsNothing.bind ?_ (ih hItems)
      unfold itemToJson
      split
      · exact .ok w
      · exact hBag w

/-- The loop of a table throws nothing if no member does; a name that is not the key fails the
assertion. -/
theorem membersToJson_throwsNothing {members : List (Bytes × PropertyBag)}
    (h : ∀ m ∈ members, ∀ w, ThrowsNothing (bagToJson reg m.2 w)) :
    ∀ w, ThrowsNothing (membersToJson reg members w) := by
  induction members with
  | nil => exact fun w => .ok w
  | cons m members ih =>
      obtain ⟨hBag, hMembers⟩ := List.forall_mem_cons.mp h
      intro w
      rw [membersToJson]
      refine ThrowsNothing.bind ?_ (ih hMembers)
      unfold memberToJson
      split
      · exact .ok w
      · exact .bind (.assert _) fun _ => hBag w

/-- A castable bag is encoded, or an assertion fails. -/
theorem bagToJson_throwsNothing {bag : PropertyBag} (h : (castable reg).Holds bag) :
    ∀ w, ThrowsNothing (bagToJson reg bag w) := by
  induction bag using PropertyBag.induction with
  | hEmpty => exact h.elim
  | hProperty name prop =>
      intro w
      rw [bagToJson]
      exact .bind (writeName_throwsNothing name w) (propertyToJson_throwsNothing h)
  | hArray name items ih =>
      obtain ⟨-, hItems⟩ := h
      rw [Shape.items_iff] at hItems
      intro w
      rw [bagToJson]
      refine .bind (writeName_throwsNothing name w) fun w =>
        arrayToJson_throwsNothing (itemsToJson_throwsNothing fun bag hBag => ih bag hBag ?_) _ w
      have hItem := hItems bag hBag
      cases bag with
      | property itemName prop => exact hItem.2
      | table itemName members => exact hItem.2
      | _ => exact hItem.elim
  | hTable name members ih =>
      obtain ⟨-, hMembers⟩ := h
      rw [Shape.members_iff] at hMembers
      intro w
      rw [bagToJson]
      exact .bind (writeName_throwsNothing name w) fun w =>
        tableToJson_throwsNothing
          (membersToJson_throwsNothing fun m hm => ih m hm (hMembers m hm).2) _ w

theorem propertyBagToJson_throwsNothing {bag : PropertyBag} (h : (castable reg).Holds bag) :
    ThrowsNothing (propertyBagToJson reg bag) :=
  .bind (bagToJson_throwsNothing h .new) fun w => .ok w.getString

end Kexplorer.Props

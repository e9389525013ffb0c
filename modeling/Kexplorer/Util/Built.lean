import Kexplorer.Props.Codec
import Kexplorer.Util.RequestUtil

/-!
# Bags as the request handlers build them

A response starts as an empty table and grows by `addToTable` and `addToArray`.
`BuiltTable` and `BuiltArray` are the bags that come out when scalars are added
under registered properties of their own type and containers under their own
names.  All of them are well typed, so that a peer decodes what was built.
-/

namespace Kexplorer.Util

open Kexplorer.Json Kexplorer.Props

mutual

/-- A table of a given name, as a handler builds it. -/
inductive BuiltTable (reg : Registry) : Bytes → PropertyBag → Prop
  | new (name : Bytes) : BuiltTable reg name (.table name [])
  | scalar {name : Bytes} {table table' : PropertyBag} {info : PropertyInfo} {val : Any} :
      BuiltTable reg name table → reg.Registered info → info.idstr.bytes ≠ [] →
      val.type = info.type → val.type.isWritten = true →
      addToTable info val table = some table' → BuiltTable reg name table'
  | table {name : Bytes} {table table' : PropertyBag} {info : PropertyInfo} {val : PropertyBag} :
      BuiltTable reg name table → info.idstr.bytes ≠ [] → BuiltTable reg info.idstr.bytes val →
      addBagToTable info val table = some table' → BuiltTable reg name table'
  | array {name : Bytes} {table table' : PropertyBag} {info : PropertyInfo} {val : PropertyBag} :
      BuiltTable reg name table → info.idstr.bytes ≠ [] → BuiltArray reg info.idstr.bytes val →
      addBagToTable info val table = some table' → BuiltTable reg name table'

/-- An array of a given name; an item's id may be any that is not registered with another
type. -/
inductive BuiltArray (reg : Registry) : Bytes → PropertyBag → Prop
  | new {info : PropertyInfo} : reg.Registered info → info.type = .array →
      BuiltArray reg info.idstr.bytes (.array info.idstr.bytes [])
  | scalar {name : Bytes} {array array' : PropertyBag} {info item : PropertyInfo} {val : Any} :
      BuiltArray reg name array → Declares reg name info → val.type = info.base →
      val.type.isWritten = true →
      (∀ other, reg.lookupId item.id = some other → other.type = val.type) →
      addToArray item val array = some array' → BuiltArray reg name array'
  | table {name : Bytes} {array array' val : PropertyBag} :
      BuiltArray reg name array → BuiltTable reg [] val →
      addBagToArray val array = some array' → BuiltArray reg name array'

end

variable {reg : Registry}

/-- Inserting a well typed bag under its own name keeps a table well typed. -/
theorem wellTyped_insert {name key : Bytes} {members : List (Bytes × PropertyBag)}
    {bag : PropertyBag} (h : (wellTyped reg).Holds (.table name members))
    (hKey : (wellTyped reg).key key bag.name) (hBag : (wellTyped reg).Holds bag) :
    (wellTyped reg).Holds (.table name (UnorderedMap.insert members key bag)) := by
  obtain ⟨hNodup, hMembers⟩ := h
  refine ⟨UnorderedMap.nodup_insert hNodup key bag, ?_⟩
  rw [Shape.members_iff] at hMembers ⊢
  unfold UnorderedMap.insert
  split
  · exact hMembers
  · intro m hm
    rw [List.mem_append, List.mem_singleton] at hm
    rcases hm with hm | rfl
    · exact hMembers m hm
    · exact ⟨hKey, hBag⟩

/-- One more item keeps an array well typed. -/
theorem wellTyped_append {name : Bytes} {items : List PropertyBag} {bag : PropertyBag}
    (h : (wellTyped reg).Holds (.array name items))
    (hBag : (wellTyped reg).Item name bag ((wellTyped reg).Holds bag)) :
    (wellTyped reg).Holds (.array name (items ++ [bag])) := by
  obtain ⟨hName, hItems⟩ := h
  refine ⟨hName, ?_⟩
  rw [Shape.items_iff] at hItems ⊢
  intro item hItem
  rw [List.mem_append, List.mem_singleton] at hItem
  rcases hItem with hItem | rfl
  · exact hItems item hItem
  · exact hBag

theorem declares_of_registered {info : PropertyInfo} (h : reg.Registered info) :
    Declares reg info.idstr.bytes info := by
  rw [Declares, CString.ofMemory_bytes]
  exact h.2

/-- A value goes by its own type if its id is not registered with another one. -/
theorem isWritten_of_declared {id : PropId} {val : Any} (hWritten : val.type.isWritten = true)
    (hId : ∀ info, reg.lookupId id = some info → info.type = val.type) :
    IsWritten reg { id := id, value := some val } := by
  refine ⟨val, rfl, hWritten, ?_⟩
  unfold typeOf
  cases hLookup : reg.lookupId id with
  | none => rfl
  | some info => exact hId info hLookup

mutual

/-- A table that was built is well typed. -/
theorem BuiltTable.wellTyped {name : Bytes} {bag : PropertyBag} : BuiltTable reg name bag →
    ∃ members, bag = .table name members ∧ (wellTyped reg).Holds bag
  | .new _ => ⟨[], rfl, List.nodup_nil, trivial⟩
  | @BuiltTable.scalar _ _ _ _ info _ hTable hRegistered hName hType hWritten hAdd => by
      obtain ⟨members, rfl, hHolds⟩ := hTable.wellTyped
      cases hAdd
      refine ⟨_, rfl, wellTyped_insert hHolds ⟨rfl, hName, info.idstr.noNul⟩ ⟨?_, info, ?_, ?_⟩⟩
      · refine isWritten_of_declared hWritten fun other hOther => ?_
        rw [hRegistered.1, Option.some.injEq] at hOther
        rw [← hOther, hType]
      · exact declares_of_registered hRegistered
      · exact congrArg some hType
  | @BuiltTable.table _ _ _ _ info _ hTable hName hVal hAdd => by
      obtain ⟨members, rfl, hHolds⟩ := hTable.wellTyped
      obtain ⟨members', rfl, hChild⟩ := hVal.wellTyped
      cases hAdd
      exact ⟨_, rfl, wellTyped_insert hHolds ⟨rfl, hName, info.idstr.noNul⟩ hChild⟩
  | @BuiltTable.array _ _ _ _ info _ hTable hName hVal hAdd => by
      obtain ⟨members, rfl, hHolds⟩ := hTable.wellTyped
      obtain ⟨items, rfl, hChild⟩ := hVal.wellTyped
      cases hAdd
      exact ⟨_, rfl, wellTyped_insert hHolds ⟨rfl, hName, info.idstr.noNul⟩ hChild⟩

/-- An array that was built is well typed. -/
theorem BuiltArray.wellTyped {name : Bytes} {bag : PropertyBag} : BuiltArray reg name bag →
    ∃ items, bag = .array name items ∧ (wellTyped reg).Holds bag
  | .new hRegistered hType => ⟨[], rfl, ⟨_, declares_of_registered hRegistered, hType⟩, trivial⟩
  | .scalar hArray hInfo hType hWritten hId hAdd => by
      obtain ⟨items, rfl, hHolds⟩ := hArray.wellTyped
      cases hAdd
      exact ⟨_, rfl, wellTyped_append hHolds
        ⟨rfl, isWritten_of_declared hWritten hId, _, hInfo, congrArg some hType⟩⟩
  | .table hArray hVal hAdd => by
      obtain ⟨items, rfl, hHolds⟩ := hArray.wellTyped
      obtain ⟨members, rfl, hChild⟩ := hVal.wellTyped
      cases hAdd
      exact ⟨_, rfl, wellTyped_append hHolds ⟨rfl, hChild⟩⟩

end

/-- A number and an array of numbers. -/
def Number : PropertyInfo := .declare .int "number"

end Kexplorer.Util

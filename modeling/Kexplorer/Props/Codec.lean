import Kexplorer.Json.RoundTrip
import Kexplorer.Props.Decode
import Kexplorer.Props.Encode
import Kexplorer.Props.Shape

/-!
# The two directions of the codec

A `writable` bag is one whose names are its keys and whose scalars are all of a
type that the encoder writes; it is encoded as the JSON value `valueOf`.  If the
registry also has every name under the type of the value, the bag is
`wellTyped`, and the decoder builds the same bag from that value again.
-/

namespace Kexplorer.Props

open Kexplorer.Json Kexplorer.Lib

section

variable (reg : Registry)

/-- The declaration that is found under a name. -/
def Declares (name : Bytes) (info : PropertyInfo) : Prop :=
  reg.lookupName (.ofMemory name) = some info

/-- A scalar that the encoder writes: it goes by the type of the value and knows it. -/
def IsWritten (prop : Property) : Prop :=
  ∃ value, prop.value = some value ∧ value.type.isWritten = true ∧
    typeOf reg prop value = value.type

def writable : Shape where
  scalar _ prop := IsWritten reg prop
  arrayName _ := True
  item _ prop := IsWritten reg prop
  key key name := name = key ∧ key ≠ []

def wellTyped : Shape where
  scalar name prop :=
    IsWritten reg prop ∧ ∃ info, Declares reg name info ∧ prop.value.map Any.type = some info.type
  arrayName name := ∃ info, Declares reg name info ∧ info.type = .array
  item name prop :=
    IsWritten reg prop ∧ ∃ info, Declares reg name info ∧ prop.value.map Any.type = some info.base
  key key name := name = key ∧ key ≠ [] ∧ 0 ∉ key

theorem wellTyped_implies_writable : (wellTyped reg).Implies (writable reg) where
  scalar _ _ h := h.1
  arrayName _ _ := trivial
  item _ _ h := h.1
  key _ _ h := ⟨h.1, h.2.1⟩

end

/-! ## The value that is written -/

/-- The value of a scalar. -/
def Property.toJson (prop : Property) : Value Empty :=
  match prop.value with
  | some value => value.toJson
  | none => .null

mutual

/-- The value of a writable bag. -/
def valueOf : PropertyBag → Value Empty
  | .empty => .null
  | .property _ prop => prop.toJson
  | .array _ items => .array (itemValues items)
  | .table _ members => .object (memberValues members)

def itemValues : List PropertyBag → List (Value Empty)
  | [] => []
  | bag :: items => valueOf bag :: itemValues items

def memberValues : List (Bytes × PropertyBag) → List (Bytes × Value Empty)
  | [] => []
  | (key, bag) :: members => (key, valueOf bag) :: memberValues members

end

/-- The values of members behind their names. -/
def flatten : List (Bytes × Value Empty) → List (Value Empty)
  | [] => []
  | (name, v) :: members => .string name :: v :: flatten members

/-- Named values make up an object. -/
theorem pushAll_flatten (members done : List (Bytes × Value Empty)) :
    (Frame.object done none).pushAll (flatten members) =
      some (.object (done ++ members) none) := by
  induction members generalizing done with
  | nil => simp [flatten, Frame.pushAll]
  | cons m members ih =>
      obtain ⟨name, v⟩ := m
      simp [flatten, Frame.pushAll, Frame.push, Frame.add, ih]

theorem closed_flatten (members : List (Bytes × Value Empty)) :
    Frame.closed (flatten members) = some members := by
  rw [Frame.closed, pushAll_flatten]
  rfl

/-- An object is closed after its members' names and values, and after nothing else. -/
theorem eq_flatten_of_pushAll : ∀ {values : List (Value Empty)}
    {done members : List (Bytes × Value Empty)},
    (Frame.object done none).pushAll values = some (.object members none) →
      ∃ rest, members = done ++ rest ∧ values = flatten rest
  | [], done, members, h => by
      cases h
      exact ⟨[], (List.append_nil _).symm, rfl⟩
  | [v], done, members, h => by cases v <;> cases h
  | v :: w :: values, done, members, h => by
      cases v with
      | string name =>
          obtain ⟨rest, rfl, rfl⟩ := @eq_flatten_of_pushAll values (done ++ [(name, w)]) members h
          exact ⟨(name, w) :: rest, List.append_assoc .., rfl⟩
      | _ => cases h

theorem eq_flatten_of_closed {values : List (Value Empty)} {members : List (Bytes × Value Empty)}
    (h : Frame.closed values = some members) : values = flatten members := by
  unfold Frame.closed at h
  split at h
  · rename_i members' hPush
    cases h
    obtain ⟨rest, rfl, rfl⟩ := eq_flatten_of_pushAll hPush
    rfl
  · cases h

variable {reg : Registry}

theorem IsWritten.written {prop : Property} (h : IsWritten reg prop) :
    propertyWritten reg prop = some [prop.toJson] := by
  obtain ⟨value, hValue, hWritten, hType⟩ := h
  rw [propertyWritten, Property.toJson, hValue, Option.bind_some, hType, if_pos hWritten,
    if_pos rfl]

theorem itemsWritten_of_forall {items : List PropertyBag}
    (h : ∀ bag ∈ items, bag.isEmpty = false ∧ written reg bag = some [valueOf bag]) :
    itemsWritten reg items = some (itemValues items) := by
  induction items with
  | nil => rfl
  | cons bag items ih =>
      obtain ⟨⟨hEmpty, hBag⟩, hItems⟩ := List.forall_mem_cons.mp h
      rw [itemsWritten, hEmpty, hBag, ih hItems]
      rfl

theorem membersWritten_of_forall {members : List (Bytes × PropertyBag)}
    (h : ∀ m ∈ members, m.2.isEmpty = false ∧ m.2.name = m.1 ∧
      written reg m.2 = some [.string m.1, valueOf m.2]) :
    membersWritten reg members = some (flatten (memberValues members)) := by
  induction members with
  | nil => rfl
  | cons m members ih =>
      obtain ⟨key, bag⟩ := m
      obtain ⟨⟨hEmpty, hName, hBag⟩, hMembers⟩ := List.forall_mem_cons.mp h
      rw [membersWritten, hEmpty, if_neg Bool.false_ne_true, if_pos hName.symm, hBag, ih hMembers]
      rfl

theorem isEmpty_of_holds {S : Shape} {bag : PropertyBag} (h : S.Holds bag) :
    bag.isEmpty = false := by
  cases bag with
  | empty => exact h.elim
  | _ => rfl

/-- Items of a writable array are writable and have no name. -/
theorem writable_item {arrayName : Bytes} {bag : PropertyBag}
    (h : (writable reg).Item arrayName bag ((writable reg).Holds bag)) :
    bag.name = [] ∧ (writable reg).Holds bag := by
  cases bag with
  | property name prop => exact h
  | table name members => exact h
  | _ => exact h.elim

private theorem itemsWritten_of_writable {name : Bytes} {items : List PropertyBag}
    (h : (writable reg).Holds (.array name items))
    (ih : ∀ bag ∈ items, (writable reg).Holds bag →
      written reg bag = some (named bag.name [valueOf bag])) :
    itemsWritten reg items = some (itemValues items) := by
  apply itemsWritten_of_forall
  intro bag hBag
  obtain ⟨hName, hHolds⟩ := writable_item (Shape.items_iff.mp h.2 bag hBag)
  have hWritten := ih bag hBag hHolds
  rw [hName] at hWritten
  exact ⟨isEmpty_of_holds hHolds, hWritten⟩

private theorem membersWritten_of_writable {name : Bytes} {members : List (Bytes × PropertyBag)}
    (h : (writable reg).Holds (.table name members))
    (ih : ∀ m ∈ members, (writable reg).Holds m.2 →
      written reg m.2 = some (named m.2.name [valueOf m.2])) :
    membersWritten reg members = some (flatten (memberValues members)) := by
  apply membersWritten_of_forall
  intro m hm
  obtain ⟨⟨hName, hKey⟩, hHolds⟩ := Shape.members_iff.mp h.2 m hm
  have hWritten := ih m hm hHolds
  rw [hName, named, if_pos hKey] at hWritten
  exact ⟨isEmpty_of_holds hHolds, hName, hWritten⟩

/-- What is written for a writable bag is its value, behind its name. -/
theorem written_of_writable {bag : PropertyBag} (h : (writable reg).Holds bag) :
    written reg bag = some (named bag.name [valueOf bag]) := by
  induction bag using PropertyBag.induction with
  | hEmpty => exact h.elim
  | hProperty name prop =>
      rw [written, h.written]
      rfl
  | hArray name items ih =>
      rw [written, itemsWritten_of_writable h ih]
      rfl
  | hTable name members ih =>
      rw [written, membersWritten_of_writable h ih, Option.bind_some, closed_flatten]
      rfl

theorem toOption_eq_some_iff {α : Type} {x : Encoding α} {a : α} :
    x.toOption = some a ↔ x = .ok a := by
  cases x <;> simp [Except.toOption]

/-- A writable table at the root is encoded as its value. -/
theorem propertyBagToJson_of_writable {members : List (Bytes × PropertyBag)}
    (h : (writable reg).Holds (.table [] members)) :
    propertyBagToJson reg (.table [] members) = .ok (valueOf (.table [] members)).render := by
  rw [← toOption_eq_some_iff, propertyBagToJson_table,
    membersWritten_of_writable h fun m _ => written_of_writable, Option.bind_some, closed_flatten]
  rfl

/-! ## The bag that is built again -/

/-- A value of a type that is written is read back from its JSON value. -/
theorem getAs_toJson {value : Any} (h : value.type.isWritten = true) :
    getAs value.type value.toJson.lift = some value := by
  cases value with
  | double d => simp [Any.type, TypeInfo.isWritten] at h
  | other name => simp [Any.type, TypeInfo.isWritten] at h
  | _ => simp [getAs, Any.type, Any.toJson, Value.lift]

/-- The JSON value of a scalar is no container. -/
theorem bagOf_toJson (name : CString) (value : Any) :
    bagOf reg name value.toJson.lift =
      (propertyOf reg name value.toJson.lift).map (.property name.bytes) := by
  cases value <;> rfl

theorem itemOf_toJson (type : TypeInfo) (value : Any) (nested : Option PropertyBag) :
    itemOf type value.toJson.lift nested =
      (getAs type value.toJson.lift).map fun value => .property [] { value := some value } := by
  cases value <;> rfl

theorem find_tableOf (members table : List (Bytes × PropertyBag)) (key : Bytes) :
    UnorderedMap.find (tableOf members table) key =
      (UnorderedMap.find table key).or (UnorderedMap.find members key) := by
  induction members generalizing table with
  | nil => simp [tableOf]
  | cons m members ih =>
      rw [tableOf, List.foldl_cons, ← tableOf, ih, UnorderedMap.find_insert, Option.or_assoc]
      congr 1
      rw [UnorderedMap.find_cons]
      split <;> rfl

theorem nodup_tableOf {members table : List (Bytes × PropertyBag)}
    (h : (table.map Prod.fst).Nodup) : ((tableOf members table).map Prod.fst).Nodup := by
  induction members generalizing table with
  | nil => exact h
  | cons m members ih => exact ih (UnorderedMap.nodup_insert h m.1 m.2)

theorem length_tableOf_le (members table : List (Bytes × PropertyBag)) :
    (tableOf members table).length ≤ table.length + members.length := by
  induction members generalizing table with
  | nil => exact Nat.le_refl _
  | cons m members ih =>
      have hInsert : (UnorderedMap.insert table m.1 m.2).length ≤ table.length + 1 := by
        unfold UnorderedMap.insert
        split
        · exact Nat.le_succ _
        · rw [List.length_append, List.length_singleton]
      have hRest := ih (UnorderedMap.insert table m.1 m.2)
      rw [tableOf, List.foldl_cons, ← tableOf, List.length_cons]
      omega

theorem nodup_tableOf_nil (members : List (Bytes × PropertyBag)) :
    ((tableOf members []).map Prod.fst).Nodup :=
  nodup_tableOf (by simp)

/-- A table has the first member of every key. -/
theorem mem_tableOf {members : List (Bytes × PropertyBag)} {m : Bytes × PropertyBag} :
    m ∈ tableOf members [] ↔ UnorderedMap.find members m.1 = some m.2 := by
  rw [UnorderedMap.mem_iff_find (nodup_tableOf_nil members), find_tableOf]
  rfl

/-- Members with distinct keys all enter the table. -/
theorem tableOf_of_nodup {members table : List (Bytes × PropertyBag)}
    (h : ((table ++ members).map Prod.fst).Nodup) : tableOf members table = table ++ members := by
  induction members generalizing table with
  | nil => simp [tableOf]
  | cons m members ih =>
      have hNew : m.1 ∉ table.map Prod.fst := by
        rw [List.map_append, List.map_cons, List.nodup_append] at h
        intro hMem
        exact h.2.2 _ hMem _ List.mem_cons_self rfl
      have hInsert : UnorderedMap.insert table m.1 m.2 = table ++ [m] := by
        rw [UnorderedMap.insert, if_neg (by rwa [UnorderedMap.find_isSome])]
      have hMore : ((table ++ [m]) ++ members).map Prod.fst = (table ++ m :: members).map Prod.fst := by
        simp
      rw [tableOf, List.foldl_cons, hInsert]
      exact (ih (by rwa [hMore])).trans (List.append_cons table m members).symm

theorem itemsOf_of_forall {type : TypeInfo} {items : List PropertyBag}
    (h : ∀ bag ∈ items, ∃ bag', itemOf type (valueOf bag).lift
      (bagOf reg (literal "") (valueOf bag).lift) = some bag' ∧ Same bag bag') :
    ∃ items', itemsOf reg type (Value.liftItems (itemValues items)) = some items' ∧
      List.Forall₂ Same items items' := by
  induction items with
  | nil => exact ⟨[], rfl, .nil⟩
  | cons bag items ih =>
      obtain ⟨⟨bag', hBag, hSame⟩, hRest⟩ := List.forall_mem_cons.mp h
      obtain ⟨items', hItems, hSames⟩ := ih hRest
      refine ⟨bag' :: items', ?_, .cons hSame hSames⟩
      rw [itemValues, Value.liftItems, itemsOf, hBag, hItems]
      rfl

theorem membersOf_of_forall {members : List (Bytes × PropertyBag)}
    (h : ∀ m ∈ members, ∃ bag', bagOf reg (.ofMemory m.1) (valueOf m.2).lift = some bag' ∧
      Same m.2 bag') :
    ∃ members', membersOf reg (Value.liftMembers (memberValues members)) = some members' ∧
      List.Forall₂ (AtKey Same) members members' := by
  induction members with
  | nil => exact ⟨[], rfl, .nil⟩
  | cons m members ih =>
      obtain ⟨⟨bag', hBag, hSame⟩, hRest⟩ := List.forall_mem_cons.mp h
      obtain ⟨members', hMembers, hSames⟩ := ih hRest
      refine ⟨(m.1, bag') :: members', ?_, .cons (.mk hSame) hSames⟩
      rw [memberValues, Value.liftMembers, membersOf, hBag, hMembers]
      rfl

/-- A scalar item is built again from its value. -/
theorem itemOf_of_isWritten {prop : Property} {type : TypeInfo} (h : IsWritten reg prop)
    (hType : prop.value.map Any.type = some type) (nested : Option PropertyBag) :
    itemOf type prop.toJson.lift nested = some (.property [] { value := prop.value }) := by
  obtain ⟨value, hValue, hWritten, -⟩ := h
  rw [hValue, Option.map_some, Option.some.injEq] at hType
  rw [Property.toJson, hValue, ← hType]
  dsimp only
  rw [itemOf_toJson, getAs_toJson hWritten]
  rfl

/-- A well typed bag is built again from its value. -/
theorem bagOf_of_wellTyped {bag : PropertyBag} (h : (wellTyped reg).Holds bag)
    (hName : 0 ∉ bag.name) :
    ∃ bag', bagOf reg (.ofMemory bag.name) (valueOf bag).lift = some bag' ∧ Same bag bag' := by
  induction bag using PropertyBag.induction with
  | hEmpty => exact h.elim
  | hProperty name prop =>
      obtain ⟨⟨value, hValue, hWritten, -⟩, info, hInfo, hType⟩ := h
      rw [hValue, Option.map_some, Option.some.injEq] at hType
      rw [Declares] at hInfo
      have hBytes : (CString.ofMemory name).bytes = name := cstr_eq_self hName
      refine ⟨.property name { id := info.id, value := some value, info := some info }, ?_,
        .property hValue⟩
      rw [PropertyBag.name, valueOf, Property.toJson, hValue]
      dsimp only
      rw [bagOf_toJson, propertyOf, hInfo, Option.bind_some, ← hType, getAs_toJson hWritten,
        hBytes]
      rfl
  | hArray name items ih =>
      obtain ⟨⟨info, hInfo, hArray⟩, hItems⟩ := h
      rw [Shape.items_iff] at hItems
      rw [Declares] at hInfo
      have hBytes : (CString.ofMemory name).bytes = name := cstr_eq_self hName
      have hAll : ∀ bag ∈ items, ∃ bag', itemOf info.base (valueOf bag).lift
          (bagOf reg (literal "") (valueOf bag).lift) = some bag' ∧ Same bag bag' := by
        intro bag hBag
        have hItem := hItems bag hBag
        cases bag with
        | property itemName prop =>
            obtain ⟨rfl, hWritten, info', hInfo', hType⟩ := hItem
            rw [Declares, hInfo, Option.some.injEq] at hInfo'
            subst hInfo'
            exact ⟨_, itemOf_of_isWritten hWritten hType _, .property rfl⟩
        | table itemName members =>
            obtain ⟨rfl, hHolds⟩ := hItem
            exact ih _ hBag hHolds List.not_mem_nil
        | _ => exact hItem.elim
      obtain ⟨items', hDecoded, hSame⟩ := itemsOf_of_forall hAll
      refine ⟨.array name items', ?_, .array hSame⟩
      rw [PropertyBag.name, valueOf, Value.lift, bagOf, hInfo, Option.bind_some, if_pos hArray,
        hDecoded, hBytes]
      rfl
  | hTable name members ih =>
      obtain ⟨hNodup, hMembers⟩ := h
      rw [Shape.members_iff] at hMembers
      have hAll : ∀ m ∈ members, ∃ bag', bagOf reg (.ofMemory m.1) (valueOf m.2).lift = some bag' ∧
          Same m.2 bag' := by
        intro m hm
        obtain ⟨⟨hKey, -, hNul⟩, hHolds⟩ := hMembers m hm
        have hAgain := ih m hm hHolds (by rwa [hKey])
        rwa [hKey] at hAgain
      obtain ⟨members', hDecoded, hSame⟩ := membersOf_of_forall hAll
      refine ⟨.table name members', ?_, .table hSame (.refl _)⟩
      rw [keys_eq_of_atKey hSame] at hNodup
      have hTable : tableOf members' [] = members' := tableOf_of_nodup hNodup
      have hBytes : (CString.ofMemory name).bytes = name := cstr_eq_self hName
      rw [PropertyBag.name, valueOf, Value.lift, bagOf, hDecoded, Option.map_some,
        hTable, hBytes]

/-- A well typed table at the root goes through the encoder and the decoder. -/
theorem roundTrip_of_wellTyped {members : List (Bytes × PropertyBag)}
    (h : (wellTyped reg).Holds (.table [] members)) :
    ∃ json bag, propertyBagToJson reg (.table [] members) = .ok json ∧ IsJson json ∧
      (∀ eh strtod past, propertyBagFromJson reg eh strtod json past = (.ok bag, [])) ∧
      Same (.table [] members) bag := by
  obtain ⟨bag, hBag, hSame⟩ := bagOf_of_wellTyped h List.not_mem_nil
  refine ⟨_, bag, propertyBagToJson_of_writable (h.mono (wellTyped_implies_writable reg)),
    isJson_render _, fun eh strtod past => ?_, hSame⟩
  rw [propertyBagFromJson_silent_iff]
  exact ⟨_, parse_render strtod _, hBag⟩

/-! ## When there is a bag at all -/

/-- Conditions under which the value of a part of a writable bag fits the registry, be it under
another type than the one it was written from. -/
def fits (reg : Registry) : Shape where
  scalar name prop := (bagOf reg (.ofMemory name) prop.toJson.lift).isSome = true
  arrayName name := ∃ info, Declares reg name info ∧ info.type = .array
  item name prop := ∃ info, Declares reg name info ∧
    (itemOf info.base prop.toJson.lift none).isSome = true
  key key name := name = key

theorem itemsOf_isSome {type : TypeInfo} {items : List JsonValue} :
    (itemsOf reg type items).isSome = true ↔
      ∀ v ∈ items, (itemOf type v (bagOf reg (literal "") v)).isSome = true := by
  induction items with
  | nil => simp [itemsOf]
  | cons v items ih =>
      rw [itemsOf, List.forall_mem_cons, ← ih]
      cases itemOf type v (bagOf reg (literal "") v) <;> simp

theorem membersOf_isSome {members : List (Bytes × JsonValue)} :
    (membersOf reg members).isSome = true ↔
      ∀ m ∈ members, (bagOf reg (.ofMemory m.1) m.2).isSome = true := by
  induction members with
  | nil => simp [membersOf]
  | cons m members ih =>
      obtain ⟨key, v⟩ := m
      rw [membersOf, List.forall_mem_cons, ← ih]
      cases bagOf reg (.ofMemory key) v <;> simp

theorem itemValues_eq_map (items : List PropertyBag) : itemValues items = items.map valueOf := by
  induction items with
  | nil => rfl
  | cons bag items ih => rw [itemValues, ih, List.map_cons]

theorem memberValues_eq_map (members : List (Bytes × PropertyBag)) :
    memberValues members = members.map fun m => (m.1, valueOf m.2) := by
  induction members with
  | nil => rfl
  | cons m members ih =>
      obtain ⟨key, bag⟩ := m
      rw [memberValues, ih, List.map_cons]

/-- The value of a written scalar is no container, so that nothing nested counts. -/
theorem itemOf_toJson_nested {prop : Property} (h : IsWritten reg prop) (type : TypeInfo)
    (nested nested' : Option PropertyBag) :
    itemOf type prop.toJson.lift nested = itemOf type prop.toJson.lift nested' := by
  obtain ⟨value, hValue, -⟩ := h
  rw [Property.toJson, hValue]
  dsimp only
  rw [itemOf_toJson, itemOf_toJson]

/-- The decoder finds nothing to report in the value of a writable bag if and only if all parts of
the bag fit. -/
theorem fits_iff {bag : PropertyBag} (h : (writable reg).Holds bag) :
    (fits reg).Holds bag ↔
      (bagOf reg (.ofMemory bag.name) (valueOf bag).lift).isSome = true := by
  induction bag using PropertyBag.induction with
  | hEmpty => exact h.elim
  | hProperty name prop => exact Iff.rfl
  | hArray name items ih =>
      have hItems := Shape.items_iff.mp h.2
      rw [Shape.Holds, Shape.items_iff, PropertyBag.name, valueOf, Value.lift, bagOf,
        Option.isSome_map]
      have hItem (info : PropertyInfo) (hInfo : Declares reg name info) (bag : PropertyBag)
          (hBag : bag ∈ items) : (fits reg).Item name bag ((fits reg).Holds bag) ↔
            (itemOf info.base (valueOf bag).lift
              (bagOf reg (literal "") (valueOf bag).lift)).isSome = true := by
        have hWritable := hItems bag hBag
        cases bag with
        | property itemName prop =>
            rw [valueOf, itemOf_toJson_nested hWritable.2 info.base _ none]
            constructor
            · rintro ⟨-, info', hInfo', hSome⟩
              rw [Declares, hInfo, Option.some.injEq] at hInfo'
              rwa [hInfo']
            · exact fun hSome => ⟨hWritable.1, info, hInfo, hSome⟩
        | table itemName members =>
            obtain ⟨rfl, hHolds⟩ := hWritable
            exact (and_iff_right rfl).trans (ih _ hBag hHolds)
        | _ => exact hWritable.elim
      rw [Value.liftItems_eq_map, itemValues_eq_map]
      constructor
      · rintro ⟨⟨info, hInfo, hType⟩, hAll⟩
        rw [show reg.lookupName (.ofMemory name) = some info from hInfo, Option.bind_some,
          if_pos hType, itemsOf_isSome]
        simp only [List.map_map, List.mem_map, Function.comp_apply, forall_exists_index, and_imp,
          forall_apply_eq_imp_iff₂]
        exact fun bag hBag => (hItem info hInfo bag hBag).mp (hAll bag hBag)
      · intro hSome
        cases hInfo : reg.lookupName (.ofMemory name) with
        | none => simp [hInfo] at hSome
        | some info =>
            rw [hInfo, Option.bind_some] at hSome
            split at hSome
            · rename_i hType
              rw [itemsOf_isSome] at hSome
              simp only [List.map_map, List.mem_map, Function.comp_apply, forall_exists_index,
                and_imp, forall_apply_eq_imp_iff₂] at hSome
              exact ⟨⟨info, hInfo, hType⟩, fun bag hBag =>
                (hItem info hInfo bag hBag).mpr (hSome bag hBag)⟩
            · cases hSome
  | hTable name members ih =>
      obtain ⟨hNodup, hMembers⟩ := h
      rw [Shape.members_iff] at hMembers
      rw [Shape.Holds, Shape.members_iff, PropertyBag.name, valueOf, Value.lift, bagOf,
        Option.isSome_map, membersOf_isSome, Value.liftMembers_eq_map, memberValues_eq_map]
      simp only [hNodup, true_and, List.map_map, List.mem_map, Function.comp_apply,
        forall_exists_index, and_imp, forall_apply_eq_imp_iff₂]
      refine forall_congr' fun m => forall_congr' fun hm => ?_
      obtain ⟨⟨hName, -⟩, hHolds⟩ := hMembers m hm
      have hBag := ih m hm hHolds
      rw [hName] at hBag
      exact (and_iff_right hName).trans hBag

end Kexplorer.Props

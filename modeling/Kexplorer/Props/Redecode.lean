import Kexplorer.Props.Codec

/-!
# Decoding, encoding and decoding again

A bag that came out of the decoder need not survive the encoder: there is no
branch for `double`, a member without a name loses it, and the assertion on the
two copies of a name fails if one was cut at a NUL.  An item of an array carries
no declaration, so that a property registered under `InvalidPropId` takes over.

`Encodable` says of a document that none of this happens in it, and
`roundTrips_iff` that these are the documents whose bags come back.  In one
direction the bag is well typed; in the other, the members and items that come
back are counted.
-/

namespace Kexplorer.Props

open Kexplorer.Json Kexplorer.Lib

/-! ## Bags from the decoder -/

/-- A property as the decoder fills it, for a declared type. -/
def IsRead (type : TypeInfo) (value : Any) : Prop :=
  value.type = type ∧ (type.isWritten = true ∨ type = .double)

section

variable (reg : Registry)

def decoded : Shape where
  scalar name prop := ∃ info value, Declares reg name info ∧ IsRead info.type value ∧
    prop = { id := info.id, value := some value, info := some info }
  arrayName name := ∃ info, Declares reg name info ∧ info.type = .array
  item name prop := ∃ info value, Declares reg name info ∧ IsRead info.base value ∧
    prop = { value := some value }
  key key name := name = cstr key

end

variable {reg : Registry}

theorem isRead_of_getAs {type : TypeInfo} {v : JsonValue} {value : Any}
    (h : getAs type v = some value) : IsRead type value := by
  unfold getAs at h
  split at h <;> first
    | (split at h <;> cases h <;> exact ⟨rfl, by decide⟩)
    | (cases h <;> exact ⟨rfl, by decide⟩)

/-- A scalar is read as a `double` exactly if it is one. -/
theorem getAs_double_iff {type : TypeInfo} {v : JsonValue} {value : Any}
    (h : getAs type v = some value) : type = .double ↔ ∃ d, v = .double d := by
  unfold getAs at h
  split at h <;> simp_all

theorem declares_bytes {name : CString} {info : PropertyInfo} :
    Declares reg name.bytes info ↔ reg.lookupName name = some info := by
  rw [Declares, CString.ofMemory_bytes]

/-- What the decoder makes of a scalar member. -/
theorem propertyOf_eq_some {name : CString} {v : JsonValue} {prop : Property}
    (h : propertyOf reg name v = some prop) :
    ∃ info value, Declares reg name.bytes info ∧ getAs info.type v = some value ∧
      prop = { id := info.id, value := some value, info := some info } := by
  obtain ⟨info, hInfo, hProp⟩ := Option.bind_eq_some_iff.mp h
  obtain ⟨value, hValue, rfl⟩ := Option.map_eq_some_iff.mp hProp
  exact ⟨info, value, declares_bytes.mpr hInfo, hValue, rfl⟩

/-- What the decoder makes of the items of an array. -/
theorem itemsOf_eq_some {type : TypeInfo} : ∀ {items : List JsonValue} {array : List PropertyBag},
    itemsOf reg type items = some array →
      List.Forall₂ (fun v bag => itemOf type v (bagOf reg (literal "") v) = some bag) items array
  | [], _, h => by
      cases h
      exact .nil
  | v :: items, _, h => by
      obtain ⟨bag, hBag, hRest⟩ := Option.bind_eq_some_iff.mp h
      obtain ⟨rest, hItems, rfl⟩ := Option.map_eq_some_iff.mp hRest
      exact .cons hBag (itemsOf_eq_some hItems)

/-- A member of a document and what the decoder makes of it. -/
inductive Decodes (reg : Registry) : Bytes × JsonValue → Bytes × PropertyBag → Prop
  | mk {key : Bytes} {v : JsonValue} {bag : PropertyBag} :
      bagOf reg (.ofMemory key) v = some bag → Decodes reg (key, v) (key, bag)

theorem membersOf_eq_some : ∀ {members : List (Bytes × JsonValue)}
    {table : List (Bytes × PropertyBag)}, membersOf reg members = some table →
      List.Forall₂ (Decodes reg) members table
  | [], _, h => by
      cases h
      exact .nil
  | (key, v) :: members, _, h => by
      obtain ⟨bag, hBag, hRest⟩ := Option.bind_eq_some_iff.mp h
      obtain ⟨rest, hMembers, rfl⟩ := Option.map_eq_some_iff.mp hRest
      exact .cons (.mk hBag) (membersOf_eq_some hMembers)

/-- An object becomes a table of the first members of each name. -/
theorem bagOf_object {name : CString} {members : List (Bytes × JsonValue)} {bag : PropertyBag}
    (h : bagOf reg name (.object members) = some bag) :
    ∃ table, List.Forall₂ (Decodes reg) members table ∧
      bag = .table name.bytes (tableOf table []) := by
  obtain ⟨table, hTable, rfl⟩ := Option.map_eq_some_iff.mp h
  exact ⟨table, membersOf_eq_some hTable, rfl⟩

theorem bagOf_array {name : CString} {items : List JsonValue} {bag : PropertyBag}
    (h : bagOf reg name (.array items) = some bag) :
    ∃ info array, Declares reg name.bytes info ∧ info.type = .array ∧
      List.Forall₂ (fun v bag => itemOf info.base v (bagOf reg (literal "") v) = some bag) items
        array ∧ bag = .array name.bytes array := by
  obtain ⟨array, hArray, rfl⟩ := Option.map_eq_some_iff.mp h
  obtain ⟨info, hInfo, hItems⟩ := Option.bind_eq_some_iff.mp hArray
  split at hItems
  · rename_i hType
    exact ⟨info, array, declares_bytes.mpr hInfo, hType, itemsOf_eq_some hItems, rfl⟩
  · cases hItems

/-- Any other value becomes a property. -/
theorem bagOf_scalar {name : CString} {v : JsonValue} {bag : PropertyBag}
    (hArray : ∀ items, v ≠ .array items) (hObject : ∀ members, v ≠ .object members)
    (h : bagOf reg name v = some bag) :
    ∃ prop, propertyOf reg name v = some prop ∧ bag = .property name.bytes prop := by
  have hScalar : bagOf reg name v = (propertyOf reg name v).map (.property name.bytes) := by
    cases v with
    | array items => exact absurd rfl (hArray items)
    | object members => exact absurd rfl (hObject members)
    | _ => rfl
  rw [hScalar] at h
  obtain ⟨prop, hProp, rfl⟩ := Option.map_eq_some_iff.mp h
  exact ⟨prop, hProp, rfl⟩

/-- An item is an object or a scalar. -/
theorem itemOf_eq_some {type : TypeInfo} {v : JsonValue} {nested : Option PropertyBag}
    {item : PropertyBag} (h : itemOf type v nested = some item) :
    (∃ members, v = .object members ∧ nested = some item) ∨
      (∀ members, v ≠ .object members) ∧
        ∃ value, getAs type v = some value ∧ item = .property [] { value := some value } := by
  unfold itemOf at h
  split at h
  · exact .inl ⟨_, rfl, h⟩
  · rename_i hObject
    obtain ⟨value, hValue, rfl⟩ := Option.map_eq_some_iff.mp h
    exact .inr ⟨hObject, value, hValue, rfl⟩

/-- The decoder builds bags of this shape. -/
theorem decoded_of_bagOf {v : JsonValue} : ∀ {name : CString} {bag : PropertyBag},
    bagOf reg name v = some bag → (decoded reg).Holds bag ∧ bag.name = name.bytes := by
  have hScalar {v : JsonValue} (hArray : ∀ items, v ≠ .array items)
      (hObject : ∀ members, v ≠ .object members) {name : CString} {bag : PropertyBag}
      (h : bagOf reg name v = some bag) : (decoded reg).Holds bag ∧ bag.name = name.bytes := by
    obtain ⟨prop, hProp, rfl⟩ := bagOf_scalar hArray hObject h
    obtain ⟨info, value, hInfo, hValue, hEq⟩ := propertyOf_eq_some hProp
    exact ⟨⟨info, value, hInfo, isRead_of_getAs hValue, hEq⟩, rfl⟩
  induction v using Value.induction with
  | hArray items ih =>
      intro name bag h
      obtain ⟨info, array, hInfo, hType, hItems, rfl⟩ := bagOf_array h
      refine ⟨⟨⟨info, hInfo, hType⟩, Shape.items_iff.mpr fun item hItem => ?_⟩, rfl⟩
      obtain ⟨v, hv, hItem⟩ := exists_of_forall₂ hItems hItem
      obtain ⟨members, rfl, hNested⟩ | ⟨-, value, hValue, rfl⟩ := itemOf_eq_some hItem
      · obtain ⟨hHolds, hName⟩ := ih _ hv hNested
        obtain ⟨table, -, rfl⟩ := bagOf_object hNested
        exact ⟨hName, hHolds⟩
      · exact ⟨rfl, info, value, hInfo, isRead_of_getAs hValue, rfl⟩
  | hObject members ih =>
      intro name bag h
      obtain ⟨table, hTable, rfl⟩ := bagOf_object h
      refine ⟨⟨nodup_tableOf_nil table, Shape.members_iff.mpr fun m hm => ?_⟩, rfl⟩
      obtain ⟨m', hm', hDecodes⟩ := exists_of_forall₂ hTable (UnorderedMap.mem_of_find (mem_tableOf.mp hm))
      cases hDecodes with
      | mk hBag =>
          obtain ⟨hHolds, hName⟩ := ih _ hm' hBag
          exact ⟨hName, hHolds⟩
  | _ => exact hScalar (by simp) (by simp)

/-! ## Documents that come back -/

section

variable (reg : Registry)

/-- The scalars in an array of this name go by the type that the decoder gave them. -/
def ItemsAgree (name : Bytes) : Prop :=
  ∀ info other, Declares reg name info → reg.lookupId InvalidPropId = some other →
    other.type = info.base

/-- An item that is an object, with the condition on it, or a scalar. -/
def EncodableItem (arrayName : Bytes) (v : JsonValue) (nested : Prop) : Prop :=
  match v with
  | .object _ => nested
  | .double _ => False
  | _ => ItemsAgree reg arrayName

mutual

/-- No value that counts is a `double`, every name that counts is non-empty and free of NUL,
and no item is taken for something else.  Members after the first of their name do not count. -/
def Encodable (name : Bytes) : JsonValue → Prop
  | .double _ => False
  | .array items => EncodableItems name items
  | .object members => EncodableMembers [] members
  | _ => True

def EncodableItems (arrayName : Bytes) : List JsonValue → Prop
  | [] => True
  | v :: items => EncodableItem reg arrayName v (Encodable [] v) ∧ EncodableItems arrayName items

def EncodableMembers (seen : List Bytes) : List (Bytes × JsonValue) → Prop
  | [] => True
  | (key, v) :: members =>
      (key ∉ seen → key ≠ [] ∧ 0 ∉ key ∧ Encodable key v) ∧ EncodableMembers (key :: seen) members

end

end

theorem encodableItems_iff {arrayName : Bytes} {items : List JsonValue} :
    EncodableItems reg arrayName items ↔
      ∀ v ∈ items, EncodableItem reg arrayName v (Encodable reg [] v) := by
  induction items with
  | nil => simp [EncodableItems]
  | cons v items ih => simp [EncodableItems, ih]

theorem encodableMembers_iff {members : List (Bytes × JsonValue)} {seen : List Bytes} :
    EncodableMembers reg seen members ↔ ∀ key v, key ∉ seen →
      UnorderedMap.find members key = some v → key ≠ [] ∧ 0 ∉ key ∧ Encodable reg key v := by
  induction members generalizing seen with
  | nil => simp [EncodableMembers]
  | cons m members ih =>
      obtain ⟨k, a⟩ := m
      rw [EncodableMembers, ih]
      simp only [UnorderedMap.find_cons]
      constructor
      · rintro ⟨hHead, hTail⟩ key v hSeen hFind
        split at hFind
        · rename_i hKey
          cases hFind
          subst hKey
          exact hHead hSeen
        · rename_i hKey
          exact hTail key v (by simp [hKey, hSeen]) hFind
      · intro hAll
        refine ⟨fun hSeen => hAll k a hSeen (by simp), fun key v hSeen hFind => ?_⟩
        rw [List.mem_cons, not_or] at hSeen
        exact hAll key v hSeen.2 (by rwa [if_neg hSeen.1])

/-- The first members of a name correspond. -/
theorem find_of_decodes {members : List (Bytes × JsonValue)} {table : List (Bytes × PropertyBag)}
    (h : List.Forall₂ (Decodes reg) members table) (key : Bytes) :
    (UnorderedMap.find members key = none ∧ UnorderedMap.find table key = none) ∨
      ∃ v bag, UnorderedMap.find members key = some v ∧ UnorderedMap.find table key = some bag ∧
        bagOf reg (.ofMemory key) v = some bag := by
  induction h with
  | nil => exact .inl ⟨rfl, rfl⟩
  | cons hHead _ ih =>
      cases hHead with
      | @mk k v bag hBag =>
          rw [UnorderedMap.find_cons, UnorderedMap.find_cons]
          split
          · rename_i hKey
            exact .inr ⟨v, bag, rfl, rfl, by rwa [hKey]⟩
          · exact ih

/-- Of the types that are read only `double` is not written. -/
theorem IsRead.isWritten_iff {type : TypeInfo} {value : Any} (h : IsRead type value) :
    type.isWritten = true ↔ type ≠ .double := by
  obtain ⟨-, hWritten | rfl⟩ := h
  · refine iff_of_true hWritten ?_
    rintro rfl
    cases hWritten
  · exact iff_of_false Bool.false_ne_true (not_not.mpr rfl)

/-- A scalar member comes back unless it is a `double`. -/
theorem wellTyped_scalar_iff {name : CString} {v : JsonValue} {prop : Property}
    (h : propertyOf reg name v = some prop) :
    (wellTyped reg).scalar name.bytes prop ↔ ∀ d, v ≠ .double d := by
  obtain ⟨info, value, hInfo, hValue, rfl⟩ := propertyOf_eq_some h
  have hRead := isRead_of_getAs hValue
  have hNotDouble : (∀ d, v ≠ .double d) ↔ info.type.isWritten = true := by
    rw [hRead.isWritten_iff, ne_eq, getAs_double_iff hValue, not_exists]
  rw [hNotDouble]
  constructor
  · rintro ⟨⟨value', hEq, hWritten, -⟩, -⟩
    cases hEq
    rwa [← hRead.1]
  · intro hWritten
    exact ⟨⟨value, rfl, by rwa [hRead.1], hRead.1.symm⟩, info, hInfo, congrArg some hRead.1⟩

/-- A scalar item comes back unless it is a `double` or taken for something else. -/
theorem wellTyped_item_iff {name : Bytes} {info : PropertyInfo} {v : JsonValue} {value : Any}
    (hInfo : Declares reg name info) (h : getAs info.base v = some value) :
    (wellTyped reg).item name { value := some value } ↔
      (∀ d, v ≠ .double d) ∧ ItemsAgree reg name := by
  have hRead := isRead_of_getAs h
  have hNotDouble : (∀ d, v ≠ .double d) ↔ info.base.isWritten = true := by
    rw [hRead.isWritten_iff, ne_eq, getAs_double_iff h, not_exists]
  have hAgree : ItemsAgree reg name ↔ typeOf reg { value := some value } value = value.type := by
    rw [hRead.1]
    unfold typeOf ItemsAgree
    cases hLookup : reg.lookupId InvalidPropId with
    | none => simp [hRead.1]
    | some other =>
        constructor
        · intro hAll
          exact hAll info other hInfo rfl
        · rintro hType info' other' hInfo' ⟨⟩
          rw [Declares, hInfo, Option.some.injEq] at hInfo'
          rw [← hInfo']
          exact hType
  rw [hNotDouble, hAgree]
  constructor
  · rintro ⟨⟨value', hEq, hWritten, hType⟩, -⟩
    cases hEq
    exact ⟨by rwa [← hRead.1], hType⟩
  · rintro ⟨hWritten, hType⟩
    exact ⟨⟨value, rfl, by rwa [hRead.1], hType⟩, info, hInfo, congrArg some hRead.1⟩

/-- A document comes back if and only if the bag is well typed. -/
theorem encodable_iff {v : JsonValue} : ∀ {name : CString} {bag : PropertyBag},
    bagOf reg name v = some bag →
      (Encodable reg name.bytes v ↔ (wellTyped reg).Holds bag) := by
  have hScalar {v : JsonValue} (hArray : ∀ items, v ≠ .array items)
      (hObject : ∀ members, v ≠ .object members) {name : CString} {bag : PropertyBag}
      (h : bagOf reg name v = some bag) :
      (∀ d, v ≠ .double d) ↔ (wellTyped reg).Holds bag := by
    obtain ⟨prop, hProp, rfl⟩ := bagOf_scalar hArray hObject h
    exact (wellTyped_scalar_iff hProp).symm
  induction v using Value.induction with
  | hArray items ih =>
      intro name bag h
      obtain ⟨info, array, hInfo, hType, hItems, rfl⟩ := bagOf_array h
      rw [Encodable, encodableItems_iff, Shape.Holds, Shape.items_iff]
      refine Iff.trans ?_ (and_iff_right ⟨info, hInfo, hType⟩).symm
      refine forall_mem_iff_of_forall₂ hItems fun v hv item hItem => ?_
      obtain ⟨members, rfl, hNested⟩ | ⟨hObject, value, hValue, rfl⟩ := itemOf_eq_some hItem
      · obtain ⟨table, -, rfl⟩ := bagOf_object hNested
        exact (ih _ hv hNested).trans (and_iff_right rfl).symm
      · refine Iff.trans ?_ ((wellTyped_item_iff hInfo hValue).symm.trans (and_iff_right rfl).symm)
        cases v with
        | object members => exact absurd rfl (hObject members)
        | double d => simp [EncodableItem]
        | _ => simp [EncodableItem]
  | hObject members ih =>
      intro name bag h
      obtain ⟨table, hTable, rfl⟩ := bagOf_object h
      rw [Encodable, encodableMembers_iff, Shape.Holds, Shape.members_iff]
      refine Iff.trans ?_ (and_iff_right (nodup_tableOf_nil table)).symm
      simp only [mem_tableOf, Prod.forall]
      refine forall_congr' fun key => ?_
      obtain ⟨hNone, hNone'⟩ | ⟨v, bag, hMember, hBag, hDecodes⟩ := find_of_decodes hTable key
      · simp [hNone, hNone']
      · have hName : bag.name = cstr key := (decoded_of_bagOf hDecodes).2
        have hValue : Encodable reg (cstr key) v ↔ (wellTyped reg).Holds bag :=
          ih _ (UnorderedMap.mem_of_find hMember) hDecodes
        simp only [hMember, hBag, Option.some.injEq, forall_eq', List.not_mem_nil, not_false_eq_true,
          forall_const]
        constructor
        · rintro ⟨hKey, hNul, hEncodable⟩
          have hCstr : cstr key = key := cstr_eq_self hNul
          rw [hCstr] at hValue
          exact ⟨⟨hName.trans hCstr, hKey, hNul⟩, hValue.mp hEncodable⟩
        · rintro ⟨⟨-, hKey, hNul⟩, hHolds⟩
          have hCstr : cstr key = key := cstr_eq_self hNul
          rw [hCstr] at hValue
          exact ⟨hKey, hNul, hValue.mpr hHolds⟩
  | hDouble d =>
      intro name bag h
      rw [← hScalar (by simp) (by simp) h]
      simp [Encodable]
  | _ =>
      intro name bag h
      rw [← hScalar (by simp) (by simp) h]
      simp [Encodable]

/-! ## Counting what comes back -/

theorem named_injective (name : Bytes) : Function.Injective (named name) := by
  intro values values' h
  unfold named at h
  split at h
  · exact (List.cons.inj h).2
  · exact h

/-- Behind its name, a bag has one value at most. -/
theorem written_eq_some {bag : PropertyBag} {values : List (Value Empty)}
    (h : written reg bag = some values) :
    ∃ body, values = named bag.name body ∧ body.length ≤ 1 := by
  cases bag with
  | empty => cases h
  | property name prop =>
      obtain ⟨body, hBody, rfl⟩ := Option.map_eq_some_iff.mp h
      refine ⟨body, rfl, ?_⟩
      obtain ⟨value, -, hValue⟩ := Option.bind_eq_some_iff.mp hBody
      split at hValue
      · split at hValue
        · cases hValue
          exact Nat.le_refl 1
        · cases hValue
      · cases hValue
        exact Nat.zero_le 1
  | array name items =>
      obtain ⟨body, -, rfl⟩ := Option.map_eq_some_iff.mp h
      exact ⟨_, rfl, Nat.le_refl 1⟩
  | table name members =>
      obtain ⟨body, -, rfl⟩ := Option.map_eq_some_iff.mp h
      exact ⟨_, rfl, Nat.le_refl 1⟩

/-- Unnamed items write one value each, or there are fewer values than items. -/
theorem itemsWritten_le {items : List PropertyBag} : ∀ {values : List (Value Empty)},
    itemsWritten reg items = some values →
    (∀ bag ∈ items, bag.isEmpty = false ∧ bag.name = []) →
    values.length ≤ items.length ∧ (values.length = items.length →
      List.Forall₂ (fun bag v => written reg bag = some [v]) items values) := by
  induction items with
  | nil =>
      intro values h _
      cases h
      exact ⟨Nat.le_refl 0, fun _ => .nil⟩
  | cons bag items ih =>
      intro values h hAll
      obtain ⟨⟨hEmpty, hName⟩, hRest⟩ := List.forall_mem_cons.mp hAll
      rw [itemsWritten, hEmpty, if_neg Bool.false_ne_true] at h
      obtain ⟨first, hFirst, h⟩ := Option.bind_eq_some_iff.mp h
      obtain ⟨rest, hItems, rfl⟩ := Option.map_eq_some_iff.mp h
      obtain ⟨body, rfl, hBody⟩ := written_eq_some hFirst
      obtain ⟨hLe, hEq⟩ := ih hItems hRest
      rw [hName, named, if_neg (not_not.mpr rfl)] at hFirst ⊢
      rw [List.length_append, List.length_cons]
      refine ⟨by omega, fun hLength => ?_⟩
      obtain ⟨v, rfl⟩ := List.length_eq_one_iff.mp (show body.length = 1 by omega)
      exact .cons hFirst (hEq (by omega))

/-- A member that is written as a name and a value. -/
inductive WrittenAs (reg : Registry) : Bytes × PropertyBag → Bytes × Value Empty → Prop
  | mk {key : Bytes} {bag : PropertyBag} {v : Value Empty} : bag.name = key → key ≠ [] →
      written reg bag = some (named bag.name [v]) → WrittenAs reg (key, bag) (key, v)

/-- Members write a name and a value each, or there are fewer values than that. -/
theorem membersWritten_le {members : List (Bytes × PropertyBag)} :
    ∀ {values : List (Value Empty)}, membersWritten reg members = some values →
    (∀ m ∈ members, m.2.isEmpty = false) →
    values.length ≤ 2 * members.length ∧ (values.length = 2 * members.length →
      ∃ named, values = flatten named ∧ List.Forall₂ (WrittenAs reg) members named) := by
  induction members with
  | nil =>
      intro values h _
      cases h
      exact ⟨Nat.le_refl 0, fun _ => ⟨[], rfl, .nil⟩⟩
  | cons m members ih =>
      intro values h hAll
      obtain ⟨key, bag⟩ := m
      obtain ⟨hEmpty, hRest⟩ := List.forall_mem_cons.mp hAll
      dsimp only at hEmpty
      rw [membersWritten, hEmpty, if_neg Bool.false_ne_true] at h
      obtain ⟨first, hFirst, h⟩ := Option.bind_eq_some_iff.mp h
      obtain ⟨rest, hMembers, rfl⟩ := Option.map_eq_some_iff.mp h
      obtain ⟨hLe, hEq⟩ := ih hMembers hRest
      split at hFirst
      · rename_i hName
        obtain ⟨body, rfl, hBody⟩ := written_eq_some hFirst
        rw [List.length_append, List.length_cons]
        by_cases hKey : key = []
        · have hShort : (named bag.name body).length = body.length := by
            rw [named, ← hName, hKey, if_neg (not_not.mpr rfl)]
          refine ⟨by omega, fun hLength => ?_⟩
          omega
        · have hNamed : named bag.name body = .string key :: body := by
            rw [named, ← hName, if_pos hKey]
          have hLong : (named bag.name body).length = body.length + 1 := by
            rw [hNamed, List.length_cons]
          refine ⟨by omega, fun hLength => ?_⟩
          obtain ⟨v, rfl⟩ := List.length_eq_one_iff.mp (show body.length = 1 by omega)
          obtain ⟨ms, rfl, hWritten⟩ := hEq (by omega)
          refine ⟨(key, v) :: ms, ?_, .cons (.mk hName.symm hKey hFirst) hWritten⟩
          rw [hNamed]
          rfl
      · cases hFirst

theorem keys_of_writtenAs {members : List (Bytes × PropertyBag)}
    {ms : List (Bytes × Value Empty)} (h : List.Forall₂ (WrittenAs reg) members ms) :
    members.map Prod.fst = ms.map Prod.fst := by
  induction h with
  | nil => rfl
  | cons hHead _ ih =>
      cases hHead
      exact congrArg _ ih

theorem keys_of_decodes {ms : List (Bytes × Value Empty)} {table : List (Bytes × PropertyBag)}
    (h : List.Forall₂ (fun m bag => Decodes reg (m.1, m.2.lift) bag) ms table) :
    ms.map Prod.fst = table.map Prod.fst := by
  induction h with
  | nil => rfl
  | cons hHead _ ih =>
      rw [List.map_cons, List.map_cons, ih]
      cases hHead
      rfl

/-- Tables with the same keys in the same order are equal if they have the same members. -/
theorem eq_of_perm_of_keys {α : Type} : ∀ {xs ys : List (Bytes × α)},
    xs.map Prod.fst = ys.map Prod.fst → (xs.map Prod.fst).Nodup → xs.Perm ys → xs = ys
  | [], ys, _, _, hPerm => hPerm.nil_eq
  | x :: xs, [], hKeys, _, _ => by cases hKeys
  | (k, a) :: xs, (l, b) :: ys, hKeys, hNodup, hPerm => by
      obtain ⟨hHead, hTail⟩ := List.cons.inj hKeys
      dsimp only at hHead
      subst hHead
      have hMem : (k, a) ∈ (k, b) :: ys := hPerm.subset List.mem_cons_self
      have hNotMem : k ∉ ys.map Prod.fst := by
        rw [hKeys] at hNodup
        exact (List.nodup_cons.mp hNodup).1
      rcases List.mem_cons.mp hMem with hEq | hIn
      · cases hEq
        rw [eq_of_perm_of_keys hTail (List.nodup_cons.mp hNodup).2 hPerm.cons_inv]
      · exact absurd (List.mem_map_of_mem hIn) hNotMem

/-- A property that writes a value is one that the encoder writes. -/
theorem isWritten_of_written {name : Bytes} {prop : Property} {v : Value Empty}
    (h : written reg (.property name prop) = some (named name [v])) : IsWritten reg prop := by
  obtain ⟨body, hBody, hNamed⟩ := Option.map_eq_some_iff.mp h
  rw [named_injective name hNamed] at hBody
  obtain ⟨value, hValue, hSome⟩ := Option.bind_eq_some_iff.mp hBody
  split at hSome
  · rename_i hWritten
    split at hSome
    · rename_i hType
      exact ⟨value, hValue, by rwa [hType], hType.symm⟩
    · cases hSome
  · cases hSome

/-- The items of a decoded array are unnamed. -/
theorem name_of_item {S : Shape} {arrayName : Bytes} {bag : PropertyBag}
    (h : S.Item arrayName bag (S.Holds bag)) : bag.isEmpty = false ∧ bag.name = [] := by
  cases bag with
  | property name prop => exact ⟨rfl, h.1⟩
  | table name members => exact ⟨rfl, h.1⟩
  | _ => exact h.elim

/-- A decoded bag that comes back from what was written for it is well typed. -/
theorem wellTyped_of_comes_back {bag : PropertyBag} : (decoded reg).Holds bag →
    ∀ {v : Value Empty} {name : CString} {bag₂ : PropertyBag},
      written reg bag = some (named bag.name [v]) → bagOf reg name v.lift = some bag₂ →
      Same bag bag₂ → (wellTyped reg).Holds bag := by
  induction bag using PropertyBag.induction with
  | hEmpty => exact fun h => h.elim
  | hProperty name prop =>
      rintro ⟨info, value, hInfo, hRead, rfl⟩ v name' bag₂ hWritten - -
      exact ⟨isWritten_of_written hWritten, info, hInfo, congrArg some hRead.1⟩
  | hArray name items ih =>
      rintro ⟨hArray, hItems⟩ v name' bag₂ hWritten hBack hSame
      rw [Shape.items_iff] at hItems
      obtain ⟨values, hValues, hNamed⟩ := Option.map_eq_some_iff.mp hWritten
      obtain ⟨rfl, -⟩ := List.cons.inj (named_injective name hNamed)
      obtain ⟨info, array, -, -, hDecoded, rfl⟩ := bagOf_array hBack
      rw [Value.liftItems_eq_map, List.forall₂_map_left_iff] at hDecoded
      cases hSame with
      | array hSames =>
          have hLength : values.length = items.length := by
            rw [hDecoded.length_eq, hSames.length_eq]
          have hUnnamed := fun bag hBag => name_of_item (hItems bag hBag)
          have hOne := (itemsWritten_le hValues hUnnamed).2 hLength
          have hAll := forall_of_forall₂ hOne hDecoded hSames
          refine ⟨hArray, Shape.items_iff.mpr fun bag hBag => ?_⟩
          obtain ⟨v, item, hWrittenItem, hItem, hSameItem⟩ := hAll bag hBag
          have hDecodedItem := hItems bag hBag
          cases bag with
          | property itemName prop =>
              obtain ⟨rfl, info', value, hInfo', hRead, rfl⟩ := hDecodedItem
              exact ⟨rfl, isWritten_of_written hWrittenItem, info', hInfo', congrArg some hRead.1⟩
          | table itemName members =>
              obtain ⟨rfl, hHolds⟩ := hDecodedItem
              refine ⟨rfl, @ih _ hBag hHolds v (literal "") item hWrittenItem ?_ hSameItem⟩
              -- what is written for a table is an object, and its bag is the item
              obtain ⟨object, -, hObject⟩ := Option.map_eq_some_iff.mp hWrittenItem
              obtain ⟨rfl, -⟩ := List.cons.inj hObject
              exact hItem
          | _ => exact hDecodedItem.elim
  | hTable name members ih =>
      rintro ⟨hNodup, hMembers⟩ v name' bag₂ hWritten hBack hSame
      rw [Shape.members_iff] at hMembers
      obtain ⟨object, hObject, hNamed⟩ := Option.map_eq_some_iff.mp hWritten
      obtain ⟨rfl, -⟩ := List.cons.inj (named_injective name hNamed)
      obtain ⟨values, hValues, hClosed⟩ := Option.bind_eq_some_iff.mp hObject
      obtain ⟨table, hDecoded, rfl⟩ := bagOf_object hBack
      rw [Value.liftMembers_eq_map, List.forall₂_map_left_iff] at hDecoded
      cases hSame with
      | @table _ _ ys _ hSames hPerm =>
          have hNonempty : ∀ m ∈ members, m.2.isEmpty = false := fun m hm =>
            isEmpty_of_holds (hMembers m hm).2
          obtain ⟨hLe, hFull⟩ := membersWritten_le hValues hNonempty
          -- every member of the table came back from a member of the object
          have hTable := length_tableOf_le table []
          have hLength : values.length = 2 * members.length := by
            have h1 := Frame.length_of_closed hClosed
            have h2 := hDecoded.length_eq
            have h3 := hSames.length_eq
            have h4 := hPerm.length_eq
            rw [List.length_nil] at hTable
            omega
          obtain ⟨ms, rfl, hWrittenAs⟩ := hFull hLength
          rw [closed_flatten, Option.some.injEq] at hClosed
          subst hClosed
          have hKeys : members.map Prod.fst = table.map Prod.fst :=
            (keys_of_writtenAs hWrittenAs).trans (keys_of_decodes hDecoded)
          have hAllEnter : tableOf table [] = table := by
            rw [hKeys] at hNodup
            exact tableOf_of_nodup hNodup
          have hSameKeys := keys_eq_of_atKey hSames
          rw [hAllEnter] at hPerm
          have hOrder : ys = table :=
            eq_of_perm_of_keys (hSameKeys.symm.trans hKeys) (by rwa [← hSameKeys]) hPerm
          subst hOrder
          have hAll := forall_of_forall₂ hWrittenAs hDecoded hSames
          refine ⟨hNodup, Shape.members_iff.mpr fun m hm => ?_⟩
          obtain ⟨p, m₂, hWrittenMember, hDecodes, hAt⟩ := hAll m hm
          obtain ⟨hCut, hHolds⟩ := hMembers m hm
          cases hWrittenMember with
          | mk hName hKey hWrittenBag =>
              cases hDecodes with
              | mk hBack =>
                  refine ⟨⟨hName, hKey, ?_⟩, ih _ hm hHolds hWrittenBag hBack hAt.snd⟩
                  exact zero_notMem_of_cstr_eq (Eq.trans hCut.symm hName)

/-! ## Both directions -/

/-- The bag is encoded, its tables visited as in `bag₁`, without a failure, and the JSON text is
decoded without a report to a bag that equals it. -/
def ComesBack (reg : Registry) (eh : IPropertyErrorHandler) (strtod : Bytes → Option Double)
    (past : List Bytes) (bag bag₁ : PropertyBag) : Prop :=
  ∃ json, propertyBagToJson reg bag₁ = .ok json ∧ IsJson json ∧
    ∃ bag₂, propertyBagFromJson reg eh strtod json past = (.ok bag₂, []) ∧ Same bag bag₂

/-- A bag decoded from an object without a report comes back, whatever the order of its tables,
if and only if the object is encodable. -/
theorem comesBack_iff {eh : IPropertyErrorHandler} {strtod : Bytes → Option Double}
    {json : Bytes} {past : List Bytes} {members : List (Bytes × JsonValue)}
    {bag bag₁ : PropertyBag} (hParse : parse strtod json = .ok (.object members))
    (hDecode : propertyBagFromJson reg eh strtod json past = (.ok bag, []))
    (hOrder : Reordered bag bag₁) :
    ComesBack reg eh strtod past bag bag₁ ↔ Encodable reg [] (.object members) := by
  rw [propertyBagFromJson_silent_iff] at hDecode
  obtain ⟨doc, hDoc, hBag⟩ := hDecode
  rw [hParse, Except.ok.injEq] at hDoc
  subst hDoc
  have hEncodable : Encodable reg [] (.object members) ↔ (wellTyped reg).Holds bag :=
    encodable_iff hBag
  have hDecoded := (decoded_of_bagOf hBag).1
  rw [hEncodable, hOrder.holds_iff (wellTyped reg).ignores_eq]
  rw [hOrder.holds_iff (decoded reg).ignores_eq] at hDecoded
  obtain ⟨table, -, rfl⟩ := bagOf_object hBag
  cases hOrder with
  | @table _ _ ys members₁ hMembers hPerm =>
      have hOrder : Reordered (.table [] (tableOf table [])) (.table [] members₁) :=
        .table hMembers hPerm
      constructor
      · rintro ⟨json₁, hEncode, -, bag₂, hBack, hSame⟩
        have hWritten : some json₁ = _ :=
          (congrArg Except.toOption hEncode).symm.trans (propertyBagToJson_table members₁)
        obtain ⟨ms, hMs, rfl⟩ := Option.map_eq_some_iff.mp hWritten.symm
        rw [propertyBagFromJson_silent_iff] at hBack
        obtain ⟨doc, hDoc, hBack⟩ := hBack
        rw [parse_render, Except.ok.injEq] at hDoc
        subst hDoc
        refine wellTyped_of_comes_back hDecoded (v := .object ms) ?_ hBack ?_
        · rw [written, hMs]
          rfl
        · exact hOrder.symm.trans (fun p q r hEq hValue => by rw [← hEq, hValue]) hSame
      · intro hHolds
        obtain ⟨json₁, bag₂, hEncode, hJson, hBack, hSame⟩ := roundTrip_of_wellTyped hHolds
        refine ⟨json₁, hEncode, hJson, bag₂, hBack eh strtod past, ?_⟩
        exact hOrder.trans (fun p q r hEq hValue => by rw [hEq, hValue]) hSame

/-- A registry with a scalar and an array of numbers. -/
def flagAndIds : Registry :=
  ((Registry.empty.registerProperty (.declare .bool "flag")).2.registerProperty
    (.declare .array "ids" .int)).2

/-- An object with a scalar, an array of a number and an object, and another object. -/
def flagsObject : List (Bytes × Value Empty) :=
  [(ascii "flag", .bool true),
    (ascii "ids", .array [.integer (.ofInt32 4), .object [(ascii "flag", .bool false)]]),
    (ascii "inner", .object [(ascii "flag", .bool false)])]

/-- The property of a flag. -/
def flagMember (b : Bool) : Bytes × PropertyBag :=
  (ascii "flag", .property (ascii "flag")
    { id := Util.crc32 (ascii "flag"), value := some (.bool b),
      info := some (.declare .bool "flag") })

/-- Its bag. -/
def flagsBag : List (Bytes × PropertyBag) :=
  [flagMember true,
    (ascii "ids", .array (ascii "ids")
      [.property [] { value := some (.int 4) }, .table [] [flagMember false]]),
    (ascii "inner", .table (ascii "inner") [flagMember false])]

/-- A table in a table and one in an array come back, here with the members of the outermost the
other way round. -/
theorem comesBack_iff_flags :
    ComesBack flagAndIds ⟨fun _ _ => .Continue⟩ (fun _ => none) [] (.table [] flagsBag)
        (.table [] flagsBag.reverse) ↔
      Encodable flagAndIds [] (.object (Value.liftMembers flagsObject)) := by
  have hParse := parse_render (fun _ => none) (.object flagsObject)
  have hOrder : Reordered (.table [] flagsBag) (.table [] flagsBag.reverse) :=
    .table (List.forall₂_same.mpr fun m _ => .mk (.refl (fun _ => rfl) m.2))
      (List.reverse_perm _).symm
  refine comesBack_iff hParse ?_ hOrder
  exact (propertyBagFromJson_silent_iff _ _ _ _).mpr ⟨_, hParse, rfl⟩

/-- What `strtod` makes of `1.5`, and of nothing else. -/
def strtodOneAndAHalf (s : Bytes) : Option Double :=
  if s = ascii "1.5" then some ⟨0x3FF8000000000000⟩ else none

private theorem double_run :
    (match parse strtodOneAndAHalf (ascii "\x7b\"d\":1.5\x7d"),
        propertyBagFromJson (Registry.empty.registerProperty (.declare .double "d")).2
          ⟨fun _ _ => .Continue⟩ strtodOneAndAHalf (ascii "\x7b\"d\":1.5\x7d") [] with
      | .ok (.object _), (.ok bag, []) =>
          decide (propertyBagToJson (Registry.empty.registerProperty (.declare .double "d")).2 bag =
            .error .assertion)
      | _, _ => false) = true := by
  decide +kernel

/-- A property of type `double` is decoded without a report, but the encoder writes its name
only, and the writer's assertion fails at the end of the object. -/
theorem double_does_not_come_back :
    ∃ members bag,
      parse strtodOneAndAHalf (ascii "\x7b\"d\":1.5\x7d") = .ok (.object members) ∧
      propertyBagFromJson (Registry.empty.registerProperty (.declare .double "d")).2
        ⟨fun _ _ => .Continue⟩ strtodOneAndAHalf (ascii "\x7b\"d\":1.5\x7d") [] = (.ok bag, []) ∧
      propertyBagToJson (Registry.empty.registerProperty (.declare .double "d")).2 bag =
        .error .assertion ∧
      ¬ ComesBack (Registry.empty.registerProperty (.declare .double "d")).2
        ⟨fun _ _ => .Continue⟩ strtodOneAndAHalf [] bag bag := by
  have hRun := double_run
  split at hRun
  · rename_i members bag hParse hDecode
    have hEncode := of_decide_eq_true hRun
    refine ⟨members, bag, hParse, hDecode, hEncode, ?_⟩
    rintro ⟨json, hJson, -⟩
    rw [hEncode] at hJson
    cases hJson
  · cases hRun

end Kexplorer.Props

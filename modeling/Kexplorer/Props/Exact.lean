import Kexplorer.Props.Codec
import Kexplorer.Props.Tolerant

/-!
# What the decoder leaves at every path

A path leads through a document by member names and array indices.  The decoder
follows it through objects and through arrays that are registered as arrays, and
`bagAt_keptAt` says that the bag at the path is what it leaves of the value there.
An array that is not registered, or that is an item itself, loses what is below.
-/

namespace Kexplorer.Props

open Kexplorer.Json Kexplorer.Lib

/-! ## Values that a type can represent -/

/-- The JSON value that a scalar stands for. -/
def Represents : Any → JsonValue → Prop
  | .bool b, v => v = .bool b
  | .int n, v => v = .integer (.ofInt32 n)
  | .uint n, v => v = .integer (.ofUInt32 n)
  | .int64 n, v => v = .integer (.ofInt64 n)
  | .uint64 n, v => v = .integer (.ofUInt64 n)
  | .double d, v => v = .double d
  | .string s, v => v = .string s
  | .other _, _ => False

/-- A type reads the values that it can represent. -/
theorem getAs_eq_some_iff {type : TypeInfo} {v : JsonValue} {value : Any} :
    getAs type v = some value ↔ value.type = type ∧ Represents value v := by
  constructor
  · intro h
    unfold getAs at h
    split at h <;> first
      | (split at h <;> cases h <;> rename_i hFits)
      | cases h
    · exact ⟨rfl, rfl⟩
    · exact ⟨rfl, congrArg Value.integer (Integer.ofInt32_ofInt hFits).symm⟩
    · exact ⟨rfl, congrArg Value.integer (Integer.ofInt64_ofInt hFits).symm⟩
    · exact ⟨rfl, congrArg Value.integer (Integer.ofUInt32_ofNat hFits).symm⟩
    · exact ⟨rfl, congrArg Value.integer (Integer.ofUInt64_ofNat hFits).symm⟩
    · exact ⟨rfl, rfl⟩
    · exact ⟨rfl, rfl⟩
  · rintro ⟨rfl, h⟩
    cases value with
    | other name => exact h.elim
    | _ =>
      rw [Represents] at h
      subst h
      simp [Any.type, getAs]

/-! ## Paths -/

inductive Step
  | member (name : Bytes)
  | item (index : Nat)

/-- The value at a path; in an object the first member of a name counts. -/
def valueAt : List Step → JsonValue → Option JsonValue
  | [], v => some v
  | .member name :: path, .object members =>
      (UnorderedMap.find members name).bind (valueAt path)
  | .item index :: path, .array items => items[index]?.bind (valueAt path)
  | _ :: _, _ => none

def bagAt : List Step → PropertyBag → Option PropertyBag
  | [], bag => some bag
  | .member name :: path, .table _ members => (UnorderedMap.find members name).bind (bagAt path)
  | .item index :: path, .array _ items => items[index]?.bind (bagAt path)
  | _ :: _, _ => none

/-- Where a value stands: at the root, under a member name, or in an array of a base type. -/
inductive Place
  | root
  | member (name : Bytes)
  | item (type : TypeInfo)

/-- The name that the decoder gives to the bag. -/
def Place.name : Place → CString
  | .root => literal ""
  | .member name => .ofMemory name
  | .item _ => literal ""

section

variable (reg : Registry)

/-- The base type of an array at a place, if an array is expected there. -/
def Place.itemType : Place → Option TypeInfo
  | .item _ => none
  | place => (reg.lookupName place.name).bind fun info =>
      if info.type = .array then some info.base else none

/-- The place and the value to which the decoder follows a path. -/
def reach : List Step → Place → JsonValue → Option (Place × JsonValue)
  | [], place, v => some (place, v)
  | .member name :: path, _, .object members =>
      (UnorderedMap.find members name).bind (reach path (.member name))
  | .item index :: path, place, .array items =>
      (place.itemType reg).bind fun type => items[index]?.bind (reach path (.item type))
  | _ :: _, _, _ => none

/-- The bag of a value at its place. -/
def keptAt (place : Place) (v : JsonValue) : PropertyBag :=
  match place with
  | .item type => keptItem type v (keptOf reg (literal "") v)
  | place => keptOf reg place.name v

end

variable {reg : Registry}

theorem keptItems_eq_map (type : TypeInfo) (items : List JsonValue) :
    keptItems reg type items = items.map (keptAt reg (.item type)) := by
  induction items with
  | nil => rfl
  | cons v items ih =>
      rw [keptItems, ih]
      rfl

theorem keptMembers_eq_tableOf (members : List (Bytes × JsonValue)) :
    ∀ table : List (Bytes × PropertyBag), keptMembers reg members table =
      tableOf (members.map fun m => (m.1, keptAt reg (.member m.1) m.2)) table := by
  induction members with
  | nil => exact fun _ => rfl
  | cons m members ih =>
      intro table
      rw [keptMembers, ih]
      rfl

/-- The first member of a name is the one in the table. -/
theorem find_keptMembers (members : List (Bytes × JsonValue)) (key : Bytes) :
    UnorderedMap.find (keptMembers reg members []) key =
      (UnorderedMap.find members key).map (keptAt reg (.member key)) := by
  rw [keptMembers_eq_tableOf, find_tableOf,
    UnorderedMap.find_map fun key => keptAt reg (.member key)]
  rfl

/-- An object is a table at every place. -/
theorem keptAt_object (place : Place) (members : List (Bytes × JsonValue)) :
    keptAt reg place (.object members) = .table place.name.bytes (keptMembers reg members []) := by
  cases place <;> rfl

/-- Nothing is left of an array in an array. -/
theorem keptAt_array_item (type : TypeInfo) (items : List JsonValue) :
    keptAt reg (.item type) (.array items) = .empty := by
  unfold keptAt keptItem itemOf
  dsimp only
  rw [getAs_array]
  rfl

/-- The items of any other array are left if an array is expected. -/
theorem keptAt_array {place : Place} (hPlace : ∀ type, place ≠ .item type)
    (items : List JsonValue) :
    keptAt reg place (.array items) = .array place.name.bytes
      (match place.itemType reg with
        | some type => items.map (keptAt reg (.item type))
        | none => []) := by
  have hArray (name : CString) : keptOf reg name (.array items) = .array name.bytes
      (match (reg.lookupName name).bind fun info =>
          if info.type = .array then some info.base else none with
        | some type => items.map (keptAt reg (.item type))
        | none => []) := by
    rw [keptOf, keptArray]
    cases hLookup : reg.lookupName name with
    | none => rfl
    | some info =>
        rw [Option.bind_some]
        dsimp only
        split
        · rw [keptItems_eq_map]
        · rfl
  cases place with
  | item type => exact absurd rfl (hPlace type)
  | root => exact hArray (literal "")
  | member name => exact hArray (.ofMemory name)

/-- A value that is no container. -/
def IsScalar (v : JsonValue) : Prop := (∀ items, v ≠ .array items) ∧ ∀ members, v ≠ .object members

variable (reg) in
theorem keptAt_scalar (place : Place) {v : JsonValue} (hScalar : IsScalar v) :
    (∃ type, place = .item type ∧ keptAt reg place v =
        ((getAs type v).map fun value => PropertyBag.property [] { value := some value }).getD .empty) ∨
      (∀ type, place ≠ .item type) ∧ keptAt reg place v = .property place.name.bytes
        ((propertyOf reg place.name v).getD {}) := by
  cases v with
  | array items => exact absurd rfl (hScalar.1 items)
  | object members => exact absurd rfl (hScalar.2 members)
  | _ =>
      cases place with
      | item type => exact .inl ⟨type, rfl, rfl⟩
      | _ => exact .inr ⟨nofun, rfl⟩

/-- Nothing lies below a scalar. -/
theorem bagAt_scalar {step : Step} {path : List Step} (place : Place) {v : JsonValue}
    (hScalar : IsScalar v) : bagAt (step :: path) (keptAt reg place v) = none := by
  rcases keptAt_scalar reg place hScalar with ⟨type, -, hBag⟩ | ⟨-, hBag⟩ <;> rw [hBag]
  · cases getAs type v <;> cases step <;> rfl
  · cases step <;> rfl

theorem reach_scalar {step : Step} {path : List Step} (place : Place) {v : JsonValue}
    (hScalar : IsScalar v) : reach reg (step :: path) place v = none := by
  cases v with
  | array items => exact absurd rfl (hScalar.1 items)
  | object members => exact absurd rfl (hScalar.2 members)
  | _ => cases step <;> rfl

variable (reg) in
/-- The bag at a path is the bag of the value there, as far as the decoder follows the path. -/
theorem bagAt_keptAt (path : List Step) : ∀ (place : Place) (v : JsonValue),
    bagAt path (keptAt reg place v) =
      (reach reg path place v).map fun p => keptAt reg p.1 p.2 := by
  induction path with
  | nil => exact fun _ _ => rfl
  | cons step path ih =>
      intro place v
      cases v with
      | object members =>
          rw [keptAt_object]
          cases step with
          | item index => rfl
          | member name =>
              rw [bagAt, reach, find_keptMembers]
              cases UnorderedMap.find members name with
              | none => rfl
              | some v => exact ih (.member name) v
      | array items =>
          cases step with
          | member name =>
              cases place with
              | item type =>
                  rw [keptAt_array_item]
                  rfl
              | _ =>
                  rw [keptAt_array (by simp)]
                  rfl
          | item index =>
              cases hType : place.itemType reg with
              | none =>
                  rw [reach, hType]
                  cases place with
                  | item type =>
                      rw [keptAt_array_item]
                      rfl
                  | _ =>
                      rw [keptAt_array (by simp), hType]
                      rfl
              | some type =>
                  have hPlace : ∀ type, place ≠ .item type := by
                    rintro type rfl
                    cases hType
                  rw [keptAt_array hPlace, hType, bagAt, reach, hType, Option.bind_some]
                  dsimp only
                  rw [List.getElem?_map]
                  cases items[index]? with
                  | none => rfl
                  | some v => exact ih (.item type) v
      | _ =>
          refine (bagAt_scalar place ?_).trans
            (congrArg (Option.map _) (reach_scalar place ?_)).symm <;> simp [IsScalar]

/-! ## What is left of a value -/

section

variable (reg : Registry)

/-- The bag that the decoder leaves of a value at a place.  An object gives a table with one entry
for each name; an array gives an array of the same length where one is expected, an empty one under
any other name and an empty bag as an item; a scalar gives the value if the registered type, or the
base type of the array, can represent it, and otherwise a property without a value or, as an item,
an empty bag. -/
def Left (place : Place) (v : JsonValue) (bag : PropertyBag) : Prop :=
  match v, place with
  | .object members, place =>
      ∃ table, bag = .table place.name.bytes table ∧ (table.map Prod.fst).Nodup ∧
        ∀ key, key ∈ table.map Prod.fst ↔ key ∈ members.map Prod.fst
  | .array _, .item _ => bag = .empty
  | .array items, place =>
      ∃ array, bag = .array place.name.bytes array ∧
        array.length = if (place.itemType reg).isSome then items.length else 0
  | v, .item type =>
      (∃ value, value.type = type ∧ Represents value v ∧
        bag = .property [] { value := some value }) ∨
      (¬ ∃ value, value.type = type ∧ Represents value v) ∧ bag = .empty
  | v, place =>
      (∃ info value, reg.lookupName place.name = some info ∧ value.type = info.type ∧
        Represents value v ∧ bag = .property place.name.bytes
          { id := info.id, value := some value, info := some info }) ∨
      (¬ ∃ info value, reg.lookupName place.name = some info ∧ value.type = info.type ∧
        Represents value v) ∧ bag = .property place.name.bytes {}

/-- The path leads into an array that is not taken item by item. -/
def Lost (path : List Step) (doc : JsonValue) : Prop :=
  ∃ above index below place items, path = above ++ .item index :: below ∧
    reach reg above .root doc = some (place, .array items) ∧ place.itemType reg = none

/-- At the path the bag has what is left of the value there, or nothing if there is none or if it
was lost with its array. -/
def ExactAt (doc : JsonValue) (bag : PropertyBag) (path : List Step) : Prop :=
  match valueAt path doc with
  | none => bagAt path bag = none
  | some v =>
      (∃ place part, reach reg path .root doc = some (place, v) ∧ bagAt path bag = some part ∧
        Left reg place v part) ∨
      Lost reg path doc ∧ bagAt path bag = none

end

theorem left_scalar_item {type : TypeInfo} {v : JsonValue} :
    (∃ value, value.type = type ∧ Represents value v ∧
        ((getAs type v).map fun value => PropertyBag.property [] { value := some value }).getD .empty =
          .property [] { value := some value }) ∨
      (¬ ∃ value, value.type = type ∧ Represents value v) ∧
        ((getAs type v).map fun value => PropertyBag.property [] { value := some value }).getD .empty =
          .empty := by
  cases hValue : getAs type v with
  | some value =>
      obtain ⟨hType, hRepresents⟩ := getAs_eq_some_iff.mp hValue
      exact .inl ⟨value, hType, hRepresents, rfl⟩
  | none =>
      refine .inr ⟨?_, rfl⟩
      rintro ⟨value, hType, hRepresents⟩
      cases hValue.symm.trans (getAs_eq_some_iff.mpr ⟨hType, hRepresents⟩)

theorem left_scalar_member {name : CString} {v : JsonValue} :
    (∃ info value, reg.lookupName name = some info ∧ value.type = info.type ∧ Represents value v ∧
        PropertyBag.property name.bytes ((propertyOf reg name v).getD {}) =
          .property name.bytes { id := info.id, value := some value, info := some info }) ∨
      (¬ ∃ info value, reg.lookupName name = some info ∧ value.type = info.type ∧
        Represents value v) ∧
        PropertyBag.property name.bytes ((propertyOf reg name v).getD {}) =
          .property name.bytes {} := by
  unfold propertyOf
  cases hLookup : reg.lookupName name with
  | none =>
      refine .inr ⟨?_, rfl⟩
      rintro ⟨info, value, hInfo, -⟩
      cases hInfo
  | some info =>
      rw [Option.bind_some]
      cases hValue : getAs info.type v with
      | some value =>
          obtain ⟨hType, hRepresents⟩ := getAs_eq_some_iff.mp hValue
          exact .inl ⟨info, value, rfl, hType, hRepresents, rfl⟩
      | none =>
          refine .inr ⟨?_, rfl⟩
          rintro ⟨info', value, hInfo, hType, hRepresents⟩
          cases hInfo
          cases hValue.symm.trans (getAs_eq_some_iff.mpr ⟨hType, hRepresents⟩)

theorem left_keptAt (place : Place) (v : JsonValue) : Left reg place v (keptAt reg place v) := by
  cases v with
  | object members =>
      unfold Left
      refine ⟨keptMembers reg members [], keptAt_object place members, ?_, fun key => ?_⟩
      · rw [keptMembers_eq_tableOf]
        exact nodup_tableOf_nil _
      · rw [← UnorderedMap.find_isSome, find_keptMembers, Option.isSome_map,
          UnorderedMap.find_isSome]
  | array items =>
      cases place with
      | item type => exact keptAt_array_item type items
      | _ =>
          refine ⟨_, keptAt_array (by simp) items, ?_⟩
          split <;> simp [*]
  | _ =>
      cases place with
      | item type => exact left_scalar_item
      | _ => exact left_scalar_member

/-- The decoder follows no path further than the document goes. -/
theorem valueAt_of_reach (path : List Step) : ∀ {place place' : Place} {v v' : JsonValue},
    reach reg path place v = some (place', v') → valueAt path v = some v' := by
  induction path with
  | nil =>
      intro place place' v v' h
      cases h
      rfl
  | cons step path ih =>
      intro place place' v v' h
      cases step with
      | member name =>
          cases v with
          | object members =>
              obtain ⟨w, hFind, hReach⟩ := Option.bind_eq_some_iff.mp h
              rw [valueAt, hFind]
              exact ih hReach
          | _ => cases h
      | item index =>
          cases v with
          | array items =>
              obtain ⟨type, -, hItems⟩ := Option.bind_eq_some_iff.mp h
              obtain ⟨w, hItem, hReach⟩ := Option.bind_eq_some_iff.mp hItems
              rw [valueAt, hItem]
              exact ih hReach
          | _ => cases h

/-- A path of the document that the decoder does not follow to its end leads into an array that it
does not take item by item. -/
theorem reach_or_lost (path : List Step) : ∀ (place : Place) {v v' : JsonValue},
    valueAt path v = some v' →
      (∃ place', reach reg path place v = some (place', v')) ∨
        reach reg path place v = none ∧
          ∃ (above : List Step) (index : Nat) (below : List Step) (place' : Place)
              (items : List JsonValue), path = above ++ .item index :: below ∧
            reach reg above place v = some (place', .array items) ∧
            place'.itemType reg = none := by
  induction path with
  | nil =>
      intro place v v' h
      cases h
      exact .inl ⟨place, rfl⟩
  | cons step path ih =>
      intro place v v' h
      cases step with
      | member name =>
          cases v with
          | object members =>
              obtain ⟨w, hFind, hValue⟩ := Option.bind_eq_some_iff.mp h
              have hReach (path : List Step) : reach reg (.member name :: path) place
                  (.object members) = reach reg path (.member name) w := by
                rw [reach, hFind]
                rfl
              rw [hReach]
              refine (ih (.member name) hValue).imp_right ?_
              rintro ⟨hNone, above, index, below, place', items, rfl, hAbove, hType⟩
              exact ⟨hNone, .member name :: above, index, below, place', items, rfl,
                (hReach above).trans hAbove, hType⟩
          | _ => cases h
      | item index =>
          cases v with
          | array items =>
              obtain ⟨w, hItem, hValue⟩ := Option.bind_eq_some_iff.mp h
              cases hType : place.itemType reg with
              | none =>
                  refine .inr ⟨?_, [], index, path, place, items, rfl, rfl, hType⟩
                  rw [reach, hType]
                  rfl
              | some type =>
                  have hReach (path : List Step) : reach reg (.item index :: path) place
                      (.array items) = reach reg path (.item type) w := by
                    rw [reach, hType, Option.bind_some, hItem]
                    rfl
                  rw [hReach]
                  refine (ih (.item type) hValue).imp_right ?_
                  rintro ⟨hNone, above, index', below, place', items', rfl, hAbove, hType'⟩
                  exact ⟨hNone, .item index :: above, index', below, place', items', rfl,
                    (hReach above).trans hAbove, hType'⟩
          | _ => cases h

/-- The decoder is exact at every path. -/
theorem exact_everywhere (reg : Registry) (strtod : Bytes → Option Double) {json : Bytes}
    {members : List (Bytes × JsonValue)} (hParse : parse strtod json = .ok (.object members)) :
    ∃ table messages,
      propertyBagFromJson reg continuing strtod json [] = (.ok (.table [] table), messages) ∧
        ∀ path, ExactAt reg (.object members) (.table [] table) path := by
  obtain ⟨messages, -, hAll⟩ := propertyBagFromJson_told reg hParse
  refine ⟨keptMembers reg members [], messages, hAll [], fun path => ?_⟩
  have hBag := bagAt_keptAt reg path .root (.object members)
  rw [keptAt_object] at hBag
  change bagAt path (.table [] (keptMembers reg members [])) = _ at hBag
  unfold ExactAt
  cases hValue : valueAt path (.object members) with
  | none =>
      dsimp only
      rw [hBag, Option.map_eq_none_iff]
      by_contra hReach
      obtain ⟨⟨place, v⟩, hSome⟩ := Option.ne_none_iff_exists'.mp hReach
      cases hValue.symm.trans (valueAt_of_reach path hSome)
  | some v =>
      rcases reach_or_lost path .root hValue with ⟨place, hReach⟩ | ⟨hNone, hLost⟩
      · rw [hReach] at hBag
        exact .inl ⟨place, _, hReach, hBag, left_keptAt place v⟩
      · rw [hNone] at hBag
        exact .inr ⟨hLost, hBag⟩

/-- One member that fits, one that is rejected and one that no registry has. -/
theorem exact_everywhere_flag :
    ∃ table messages,
      propertyBagFromJson (Registry.empty.registerProperty (.declare .bool "flag")).2 continuing
          (fun _ => none)
          (Value.render (.object [(ascii "flag", .bool true), (ascii "x", .array [.null])])) [] =
        (.ok (.table [] table), messages) ∧
      ∀ path, ExactAt (Registry.empty.registerProperty (.declare .bool "flag")).2
        (.object [(ascii "flag", .bool true), (ascii "x", .array [.null])]) (.table [] table) path :=
  exact_everywhere _ _ (parse_render (fun _ => none) _)

/-- An object for which there is no table, because the reader refuses it. -/
theorem halfPair_no_table :
    IsObject halfPair ∧ ¬ ∃ table messages,
      propertyBagFromJson Registry.empty continuing (fun _ => none) halfPair [] =
        (.ok (.table [] table), messages) := by
  obtain ⟨what, hThrows⟩ := halfPair_throws Registry.empty continuing
  refine ⟨isObject_halfPair, ?_⟩
  rintro ⟨table, messages, hTable⟩
  cases hThrows.symm.trans hTable

end Kexplorer.Props

import Kexplorer.Json.Reader
import Kexplorer.Lib.Reporting
import Kexplorer.Props.Registry

/-!
# From JSON to a property bag

The decoder looks every member up in the registry by its name and reads its
value as the registered type.  What does not fit is reported to an error
handler; the decoder goes on with an empty property unless the handler answers
`Abort`.

The functions that call each other on the same value of the document are given
the callee's computation as an argument, so that the recursion goes from a
container to its elements.

`bagOf` is the bag of a document in which everything fits, and
`fromJsonValue_extends` says that the decoder reports nothing exactly for those
documents.
-/

namespace Kexplorer.Props

open Kexplorer.Json Kexplorer.Lib

/-- `IPropertyErrorHandler`: its answer to a message may depend on the messages
before. -/
structure IPropertyErrorHandler where
  handle : List Bytes → Bytes → CallbackResult

/-- A computation that reports messages and throws exceptions with a text. -/
abbrev Decoding (α : Type) := Reporting Bytes Bytes α

/-- A document's value. -/
abbrev JsonValue := Value Double

/-- The `Is...()` and `Get...()` of a type: what a value of the document is read as. -/
def getAs : TypeInfo → JsonValue → Option Any
  | .bool, .bool b => some (.bool b)
  | .int, .integer n => if n.isInt then some (.int (Int32.ofInt n.val)) else none
  | .int64, .integer n => if n.isInt64 then some (.int64 (Int64.ofInt n.val)) else none
  | .uint, .integer n => if n.isUint then some (.uint (UInt32.ofNat n.val.toNat)) else none
  | .uint64, .integer n => if n.isUint64 then some (.uint64 (UInt64.ofNat n.val.toNat)) else none
  | .double, .double d => some (.double d)
  | .string, .string s => some (.string s)
  | _, _ => none

/-- How the messages about properties call a type; the others are unsupported. -/
def TypeInfo.expected : TypeInfo → Option Bytes
  | .bool => some (ascii "a 'bool'")
  | .int => some (ascii "an 'int'")
  | .int64 => some (ascii "an 'int64_t'")
  | .uint => some (ascii "an 'unsigned int'")
  | .uint64 => some (ascii "an 'uint64_t'")
  | .double => some (ascii "a 'double'")
  | .string => some (ascii "an 'std::string'")
  | _ => none

/-- The messages about array items differ in one article. -/
def TypeInfo.expectedItem : TypeInfo → Option Bytes
  | .double => some (ascii "an 'double'")
  | type => type.expected

section

variable (reg : Registry) (eh : IPropertyErrorHandler)

def handleError (message : Bytes) : Decoding Unit :=
  .report
    (fun past message =>
      match eh.handle past message with
      | .Abort => some message
      | .Continue => none)
    message

def propertyFromJsonValue (name : CString) (v : JsonValue) : Decoding Property :=
  match v with
  | .array _ => do
      handleError eh
        (ascii "Property '" ++ name.bytes ++ ascii "' is an array while a scalar expected")
      return {}
  | .object _ => do
      handleError eh
        (ascii "Property '" ++ name.bytes ++ ascii "' is an object while a scalar expected")
      return {}
  | v =>
      match reg.lookupName name with
      | none => do
          handleError eh (ascii "Unsupported property '" ++ name.bytes ++ ascii "'")
          return {}
      | some info =>
          match info.type.expected with
          | some expected =>
              match getAs info.type v with
              | some value => return { id := info.id, value := some value, info := some info }
              | none => do
                  handleError eh
                    (ascii "Property '" ++ name.bytes ++ ascii "' is not " ++ expected)
                  return {}
          | none => do
              handleError eh
                (ascii "Property '" ++ name.bytes ++ ascii "' is of an unsupported type '" ++
                  info.type.name ++ ascii "'")
              return {}

/-- The start of the messages about an item. -/
def itemText (arrayName : CString) (index : Nat) : Bytes :=
  ascii "Array '" ++ arrayName.bytes ++ ascii "' item #" ++ decimal index

/-- `arrayItemFromJson`; `nested` is `propertyBagFromJsonValue("", v, eh)`. -/
def arrayItemFromJson (arrayName : CString) (type : TypeInfo) (index : Nat) (v : JsonValue)
    (nested : Decoding PropertyBag) : Decoding PropertyBag :=
  match v with
  | .array _ => do
      handleError eh (itemText arrayName index ++ ascii " is an array while a scalar expected")
      return .empty
  | .object _ => nested
  | v =>
      match type.expectedItem with
      | some expected =>
          match getAs type v with
          | some value => return .property [] { value := some value }
          | none => do
              handleError eh (itemText arrayName index ++ ascii " is not " ++ expected)
              return .empty
      | none => do
          handleError eh
            (itemText arrayName index ++ ascii " is of an unsupported type '" ++ type.name ++
              ascii "'")
          return .empty

/-- `arrayFromJsonValue`; `items` is the loop over the items. -/
def arrayFromJsonValue (name : CString) (v : JsonValue)
    (items : TypeInfo → Decoding (List PropertyBag)) : Decoding (List PropertyBag) :=
  match reg.lookupName name with
  | none => do
      handleError eh (ascii "Unsupported property '" ++ name.bytes ++ ascii "'")
      return []
  | some info =>
      if info.type ≠ .array then do
        handleError eh
          (ascii "Property '" ++ name.bytes ++ ascii "' is not a 'PropertyBag::Array'")
        return []
      else
        match v with
        | .array _ => items info.base
        | _ => do
            handleError eh (ascii "Property '" ++ name.bytes ++ ascii "' is not an array")
            return []

/-- `tableFromJsonValue`; `members` is the loop over the members. -/
def tableFromJsonValue (name : CString) (v : JsonValue)
    (members : Decoding (List (Bytes × PropertyBag))) : Decoding (List (Bytes × PropertyBag)) :=
  match v with
  | .object _ => members
  | _ => do
      handleError eh (ascii "Property '" ++ name.bytes ++ ascii "' is not an object")
      return []

mutual

def propertyBagFromJsonValue (name : CString) : JsonValue → Decoding PropertyBag
  | .object members => do
      let table ← tableFromJsonValue eh name (.object members) (membersFromJson members [])
      return .table name.bytes table
  | .array items => do
      let array ← arrayFromJsonValue reg eh name (.array items) fun type =>
        itemsFromJson name type 0 items
      return .array name.bytes array
  | v => do
      let property ← propertyFromJsonValue reg eh name v
      return .property name.bytes property

/-- The loop of `arrayFromJsonValue`, from an index on. -/
def itemsFromJson (name : CString) (type : TypeInfo) (index : Nat) :
    List JsonValue → Decoding (List PropertyBag)
  | [] => return []
  | v :: items => do
      let item ← arrayItemFromJson eh name type index v
        (propertyBagFromJsonValue (literal "") v)
      let array ← itemsFromJson name type (index + 1) items
      return item :: array

/-- The loop of `tableFromJsonValue`, with the table so far. -/
def membersFromJson :
    List (Bytes × JsonValue) → List (Bytes × PropertyBag) → Decoding (List (Bytes × PropertyBag))
  | [], table => return table
  | (memberName, v) :: members, table => do
      let member ← propertyBagFromJsonValue (.ofMemory memberName) v
      membersFromJson members (UnorderedMap.insert table memberName member)

end

/-- `propertyBagFromJson` of the C string at `json`. -/
def propertyBagFromJson (strtod : Bytes → Option Double) (json : Bytes) : Decoding PropertyBag :=
  match parse strtod json with
  | .error (code, offset) =>
      .throw (ascii "Failed to parse JSON: [" ++ code.text ++ ascii "] at " ++ decimal offset)
  | .ok doc => propertyBagFromJsonValue reg eh (literal "") doc

/-! ## Documents in which everything fits -/

/-- The property of a scalar that has its registered type. -/
def propertyOf (name : CString) (v : JsonValue) : Option Property :=
  (reg.lookupName name).bind fun info =>
    (getAs info.type v).map fun value => { id := info.id, value := some value, info := some info }

/-- The bag of an array item that is a scalar or, with its own bag, an object. -/
def itemOf (type : TypeInfo) (v : JsonValue) (nested : Option PropertyBag) : Option PropertyBag :=
  match v with
  | .object _ => nested
  | v => (getAs type v).map fun value => .property [] { value := some value }

/-- The table of some members in the order of the document. -/
def tableOf (members table : List (Bytes × PropertyBag)) : List (Bytes × PropertyBag) :=
  members.foldl (fun table m => UnorderedMap.insert table m.1 m.2) table

mutual

/-- The bag of a document in which everything fits. -/
def bagOf (name : CString) : JsonValue → Option PropertyBag
  | .object members => (membersOf members).map fun table => .table name.bytes (tableOf table [])
  | .array items =>
      ((reg.lookupName name).bind fun info =>
        if info.type = .array then itemsOf info.base items else none).map (PropertyBag.array name.bytes)
  | v => (propertyOf reg name v).map (.property name.bytes)

def itemsOf (type : TypeInfo) : List JsonValue → Option (List PropertyBag)
  | [] => some []
  | v :: items =>
      (itemOf type v (bagOf (literal "") v)).bind fun item =>
        (itemsOf type items).map fun array => item :: array

def membersOf : List (Bytes × JsonValue) → Option (List (Bytes × PropertyBag))
  | [] => some []
  | (memberName, v) :: members =>
      (bagOf (.ofMemory memberName) v).bind fun member =>
        (membersOf members).map fun table => (memberName, member) :: table

end

variable {reg} {eh}

/-- Types without a name in the messages are those that nothing is read as. -/
theorem getAs_eq_none {type : TypeInfo} (h : type.expected = none) (v : JsonValue) :
    getAs type v = none := by
  cases type <;> first | rfl | cases h

theorem expectedItem_eq_none {type : TypeInfo} :
    type.expectedItem = none ↔ type.expected = none := by
  cases type <;> simp [TypeInfo.expectedItem, TypeInfo.expected]

/-- Whatever the handler answers, it was asked. -/
theorem handleError_extends {α : Type} (message : Bytes) (f : Unit → Decoding α) :
    (handleError eh message >>= f).Extends none :=
  .report _ message f

/-- Containers are not read as scalars. -/
theorem getAs_array (type : TypeInfo) (items : List JsonValue) : getAs type (.array items) = none := by
  cases type <;> rfl

theorem getAs_object (type : TypeInfo) (members : List (Bytes × JsonValue)) :
    getAs type (.object members) = none := by
  cases type <;> rfl

theorem propertyFromJsonValue_extends (name : CString) (v : JsonValue) :
    (propertyFromJsonValue reg eh name v).Extends (propertyOf reg name v) := by
  unfold propertyFromJsonValue propertyOf
  split
  · simpa [getAs_array] using handleError_extends _ _
  · simpa [getAs_object] using handleError_extends _ _
  · split
    · rename_i hLookup
      rw [hLookup]
      exact handleError_extends _ _
    · rename_i info hLookup
      rw [hLookup, Option.bind_some]
      split
      · split
        · rename_i value hValue
          rw [hValue]
          exact .pure _
        · rename_i hValue
          rw [hValue]
          exact handleError_extends _ _
      · rename_i hExpected
        rw [getAs_eq_none hExpected]
        exact handleError_extends _ _

theorem arrayItemFromJson_extends (arrayName : CString) (type : TypeInfo) (index : Nat)
    (v : JsonValue) {nested : Decoding PropertyBag} {bag : Option PropertyBag}
    (hNested : nested.Extends bag) :
    (arrayItemFromJson eh arrayName type index v nested).Extends (itemOf type v bag) := by
  unfold arrayItemFromJson itemOf
  cases v with
  | object members => exact hNested
  | array items => simpa [getAs_array] using handleError_extends _ _
  | _ =>
      dsimp only
      split
      · split
        · rename_i value hValue
          rw [hValue]
          exact .pure _
        · rename_i hValue
          rw [hValue]
          exact handleError_extends _ _
      · rename_i hExpected
        rw [getAs_eq_none (expectedItem_eq_none.mp hExpected)]
        exact handleError_extends _ _

theorem arrayFromJsonValue_extends (name : CString) (items : List JsonValue)
    {loop : TypeInfo → Decoding (List PropertyBag)} {array : TypeInfo → Option (List PropertyBag)}
    (hLoop : ∀ type, (loop type).Extends (array type)) :
    (arrayFromJsonValue reg eh name (.array items) loop).Extends
      ((reg.lookupName name).bind fun info =>
        if info.type = .array then array info.base else none) := by
  unfold arrayFromJsonValue
  split
  · rename_i hLookup
    rw [hLookup]
    exact handleError_extends _ _
  · rename_i info hLookup
    rw [hLookup, Option.bind_some]
    split
    · exact handleError_extends _ _
    · rename_i hType
      rw [if_pos (not_not.mp hType)]
      exact hLoop info.base

/-- A scalar at any place. -/
private theorem scalar_extends (name : CString) (v : JsonValue) :
    (do let property ← propertyFromJsonValue reg eh name v
        return PropertyBag.property name.bytes property : Decoding PropertyBag).Extends
      ((propertyOf reg name v).map (.property name.bytes)) :=
  (propertyFromJsonValue_extends name v).map _

mutual

/-- The decoder reports nothing exactly where everything fits. -/
theorem fromJsonValue_extends : ∀ (v : JsonValue) (name : CString),
    (propertyBagFromJsonValue reg eh name v).Extends (bagOf reg name v)
  | .object members, name => by
      have hMembers := (membersFromJson_extends members []).map (PropertyBag.table name.bytes)
      rw [Option.map_map] at hMembers
      exact hMembers
  | .array items, name =>
      (arrayFromJsonValue_extends name items
        fun type => itemsFromJson_extends name type items 0).map (PropertyBag.array name.bytes)
  | .null, name => scalar_extends name .null
  | .bool b, name => scalar_extends name (.bool b)
  | .integer n, name => scalar_extends name (.integer n)
  | .double d, name => scalar_extends name (.double d)
  | .string s, name => scalar_extends name (.string s)

theorem itemsFromJson_extends (name : CString) (type : TypeInfo) : ∀ (items : List JsonValue)
    (index : Nat), (itemsFromJson reg eh name type index items).Extends (itemsOf reg type items)
  | [], _ => .pure _
  | v :: items, index => by
      have hItem := @arrayItemFromJson_extends eh name type index v _ _
        (fromJsonValue_extends v (literal ""))
      unfold itemsFromJson itemsOf
      exact hItem.bind fun item _ => (itemsFromJson_extends name type items (index + 1)).map _

theorem membersFromJson_extends : ∀ (members : List (Bytes × JsonValue))
    (table : List (Bytes × PropertyBag)),
    (membersFromJson reg eh members table).Extends
      ((membersOf reg members).map fun decoded => tableOf decoded table)
  | [], _ => .pure _
  | (memberName, v) :: members, table => by
      have hMember := fromJsonValue_extends v (.ofMemory memberName)
      unfold membersFromJson membersOf
      rw [Option.map_bind]
      refine hMember.bind fun member _ => ?_
      rw [Function.comp_apply, Option.map_map]
      exact membersFromJson_extends members (UnorderedMap.insert table memberName member)

end

/-- Decoding succeeds without a report if and only if everything fits, and then the bag is that
of the document. -/
theorem propertyBagFromJson_silent_iff (strtod : Bytes → Option Double) (json : Bytes)
    (past : List Bytes) (bag : PropertyBag) :
    propertyBagFromJson reg eh strtod json past = (.ok bag, []) ↔
      ∃ doc, parse strtod json = .ok doc ∧ bagOf reg (literal "") doc = some bag := by
  unfold propertyBagFromJson
  cases hParse : parse strtod json with
  | error e => simp [Reporting.throw]
  | ok doc =>
      dsimp only
      rw [(fromJsonValue_extends doc (literal "")).silent_iff]
      simp

/-- Once the text is parsed, the handler is asked nothing if and only if everything fits. -/
theorem propertyBagFromJson_quiet_iff {strtod : Bytes → Option Double} {json : Bytes}
    {doc : JsonValue} (hParse : parse strtod json = .ok doc) (past : List Bytes) :
    (propertyBagFromJson reg eh strtod json past).2 = [] ↔
      (bagOf reg (literal "") doc).isSome = true := by
  unfold propertyBagFromJson
  rw [hParse]
  exact (fromJsonValue_extends doc (literal "")).quiet_iff

end

end Kexplorer.Props

import Kexplorer.Json.Writer
import Kexplorer.Props.Registry

/-!
# From a property bag to JSON

The encoder walks over a bag and calls the writer.  The type of a scalar is that
of its declaration, which it carries along or which the registry has under its
id, and only without any declaration that of its value; a type that the encoder
does not know writes nothing at all.

A failed assertion, of the encoder or of the writer, and an exception are
different failures.

`written` is what the encoder hands to the writer for a bag, level by level, and
`bagToJson_within` says that the encoder succeeds exactly if these values can be
added to the container that is being written.
-/

namespace Kexplorer.Props

open Kexplorer.Json

/-- How the encoder fails. -/
inductive Failure
  | assertion
  | exception (what : Bytes)
  deriving DecidableEq

abbrev Encoding (α : Type) := Except Failure α

/-- `assert`. -/
def assert (condition : Bool) : Encoding Unit :=
  if condition then .ok () else .error .assertion

/-- A call of the writer, with its assertions. -/
def put (w : Option Writer) : Encoding Writer :=
  match w with
  | some w => .ok w
  | none => .error .assertion

/-- What `std::bad_any_cast` says. -/
def badAnyCast : Bytes := ascii "bad any_cast"

/-- `std::any_cast` to a type that the value does not have. -/
def castFails : Encoding Writer := .error (.exception badAnyCast)

section

variable (reg : Registry)

/-- The type that `propertyToJson` goes by. -/
def typeOf (prop : Property) (value : Any) : TypeInfo :=
  match prop.info.or (reg.lookupId prop.id) with
  | some info => info.type
  | none => value.type

/-- The branches of `propertyToJson`, each with its cast and its call of the writer. -/
def valueToJson (type : TypeInfo) (value : Any) (writer : Writer) : Encoding Writer :=
  match type, value with
  | .bool, .bool b => put (writer.bool b)
  | .bool, _ => castFails
  | .int, .int n => put (writer.integer (.ofInt32 n))
  | .int, _ => castFails
  | .uint, .uint n => put (writer.integer (.ofUInt32 n))
  | .uint, _ => castFails
  | .int64, .int64 n => put (writer.integer (.ofInt64 n))
  | .int64, _ => castFails
  | .uint64, .uint64 n => put (writer.integer (.ofUInt64 n))
  | .uint64, _ => castFails
  | .string, .string s => put (writer.string s)
  | .string, _ => castFails
  -- no branch for any other type, `double` included
  | _, _ => .ok writer

def propertyToJson (bag : PropertyBag) (writer : Writer) : Encoding Writer :=
  match bag with
  | .property _ prop => do
      assert prop.value.isSome
      match prop.value with
      | none => .error (.exception (ascii "Property " ++ hex8 prop.id ++ ascii " has no value"))
      | some value => valueToJson (typeOf reg prop value) value writer
  | _ => .error .assertion

/-- `tableToJson`; `members` is the loop over the members. -/
def tableToJson (bag : PropertyBag) (members : Writer → Encoding Writer) (writer : Writer) :
    Encoding Writer := do
  assert bag.isTable
  let writer ← put writer.startObject
  let writer ← members writer
  put writer.endObject

/-- `arrayToJson`; `items` is the loop over the items. -/
def arrayToJson (bag : PropertyBag) (items : Writer → Encoding Writer) (writer : Writer) :
    Encoding Writer := do
  assert bag.isArray
  let writer ← put writer.startArray
  let writer ← items writer
  put writer.endArray

/-- The name of a bag, if it has one. -/
def writeName (name : Bytes) (writer : Writer) : Encoding Writer :=
  if name ≠ [] then put (writer.key name) else return writer

/-- The body of the loop of `arrayToJson`; `body` is `propertyBagToJson(bag, writer)`. -/
def itemToJson (bag : PropertyBag) (body : Writer → Encoding Writer) (writer : Writer) :
    Encoding Writer :=
  if bag.isEmpty then .ok writer else body writer

/-- The body of the loop of `tableToJson`. -/
def memberToJson (key : Bytes) (bag : PropertyBag) (body : Writer → Encoding Writer)
    (writer : Writer) : Encoding Writer :=
  if bag.isEmpty then .ok writer
  else do
    assert (key = bag.name)
    body writer

mutual

/-- `propertyBagToJson(bag, writer)`. -/
def bagToJson : PropertyBag → Writer → Encoding Writer
  | .array name items, writer => do
      let writer ← writeName name writer
      arrayToJson (.array name items) (itemsToJson items) writer
  | .table name members, writer => do
      let writer ← writeName name writer
      tableToJson (.table name members) (membersToJson members) writer
  | .property name prop, writer => do
      let writer ← writeName name writer
      propertyToJson reg (.property name prop) writer
  | .empty, writer => propertyToJson reg .empty writer

/-- The loop of `arrayToJson`. -/
def itemsToJson : List PropertyBag → Writer → Encoding Writer
  | [], writer => return writer
  | bag :: items, writer => do
      let writer ← itemToJson bag (bagToJson bag) writer
      itemsToJson items writer

/-- The loop of `tableToJson`. -/
def membersToJson : List (Bytes × PropertyBag) → Writer → Encoding Writer
  | [], writer => return writer
  | (key, bag) :: members, writer => do
      let writer ← memberToJson key bag (bagToJson bag) writer
      membersToJson members writer

end

/-- `propertyBagToJson(bag)`. -/
def propertyBagToJson (bag : PropertyBag) : Encoding Bytes := do
  let writer ← bagToJson reg bag .new
  return writer.getString

/-! ## What is written -/

/-- The types with a branch in the encoder. -/
def TypeInfo.isWritten : TypeInfo → Bool
  | .bool | .int | .uint | .int64 | .uint64 | .string => true
  | _ => false

/-- The JSON value of a scalar of such a type. -/
def Any.toJson : Any → Value Empty
  | .bool b => .bool b
  | .int n => .integer (.ofInt32 n)
  | .uint n => .integer (.ofUInt32 n)
  | .int64 n => .integer (.ofInt64 n)
  | .uint64 n => .integer (.ofUInt64 n)
  | .string s => .string s
  | .double _ => .null
  | .other _ => .null

/-- A property's values for the writer: one, or none for a type without a branch. -/
def propertyWritten (prop : Property) : Option (List (Value Empty)) :=
  prop.value.bind fun value =>
    if (typeOf reg prop value).isWritten then
      if value.type = typeOf reg prop value then some [value.toJson] else none
    else some []

/-- The values of a bag behind its name. -/
def named (name : Bytes) (values : List (Value Empty)) : List (Value Empty) :=
  if name ≠ [] then .string name :: values else values

mutual

/-- The values that the encoder hands to the writer for a bag. -/
def written : PropertyBag → Option (List (Value Empty))
  | .empty => none
  | .property name prop => (propertyWritten reg prop).map (named name)
  | .array name items => (itemsWritten items).map fun values => named name [.array values]
  | .table name members =>
      ((membersWritten members).bind Frame.closed).map fun members => named name [.object members]

def itemsWritten : List PropertyBag → Option (List (Value Empty))
  | [] => some []
  | bag :: items =>
      (if bag.isEmpty then some [] else written bag).bind fun values =>
        (itemsWritten items).map (values ++ ·)

def membersWritten : List (Bytes × PropertyBag) → Option (List (Value Empty))
  | [] => some []
  | (key, bag) :: members =>
      (if bag.isEmpty then some [] else if key = bag.name then written bag else none).bind
        fun values => (membersWritten members).map (values ++ ·)

end

variable {reg}

theorem toOption_bind {α β : Type} (x : Encoding α) (f : α → Encoding β) :
    (x >>= f).toOption = x.toOption.bind fun a => (f a).toOption := by
  cases x <;> rfl

theorem toOption_put (w : Option Writer) : (put w).toOption = w := by
  cases w <;> rfl

theorem toOption_ok {α : Type} (a : α) : (Except.ok a : Encoding α).toOption = some a := rfl

theorem toOption_error {α : Type} (e : Failure) : (Except.error e : Encoding α).toOption = none := rfl

theorem toOption_castFails : castFails.toOption = none := rfl

theorem assert_true : assert true = .ok () := rfl

theorem writeName_written (name : Bytes) (w : Writer) (values : List (Value Empty)) :
    (writeName name w).toOption.bind (Value.acceptItems values) =
      Value.acceptItems (named name values) w := by
  unfold writeName named
  split
  · rw [toOption_put]
    rfl
  · rfl

theorem valueToJson_written (type : TypeInfo) (value : Any) (w : Writer) :
    (valueToJson type value w).toOption =
      (if type.isWritten then if value.type = type then some [value.toJson] else none
        else some []).bind fun values => Value.acceptItems values w := by
  cases type <;> cases value <;>
    simp [valueToJson, TypeInfo.isWritten, Any.type, Any.toJson, Value.acceptItems, Value.accept,
      toOption_put, toOption_castFails, toOption_ok]

theorem propertyToJson_written (name : Bytes) (prop : Property) (w : Writer) :
    (propertyToJson reg (.property name prop) w).toOption =
      (propertyWritten reg prop).bind fun values => Value.acceptItems values w := by
  unfold propertyToJson propertyWritten
  dsimp only
  cases prop.value with
  | none => rfl
  | some value => exact valueToJson_written (typeOf reg prop value) value w

/-- An array takes the values of its items. -/
theorem arrayToJson_written (name : Bytes) (items : List PropertyBag) (w : Writer)
    {loop : Writer → Encoding Writer} {values : Option (List (Value Empty))}
    (hLoop : ∀ w, (loop w).toOption = values.bind fun values => Value.acceptItems values w) :
    (arrayToJson (.array name items) loop w).toOption =
      values.bind fun values => (Value.array values).accept w := by
  unfold arrayToJson
  simp only [PropertyBag.isArray, assert_true, toOption_bind, toOption_ok, Option.bind_some,
    toOption_put, hLoop, Writer.startArray_eq]
  cases values with
  | none => simp
  | some values =>
      rw [Option.bind_some]
      cases hPrefix : w.writePrefix .array with
      | none =>
          rw [Value.accept_of_refused (v := .array values) hPrefix]
          rfl
      | some w₁ =>
          rw [Value.accept_spec (.array values) hPrefix]
          simp [Value.acceptItems_inside, Frame.pushAll_array, Writer.endArray_inside]

/-- A table takes the values of its members if they make up an object. -/
theorem tableToJson_written (name : Bytes) (members : List (Bytes × PropertyBag)) (w : Writer)
    {loop : Writer → Encoding Writer} {values : Option (List (Value Empty))}
    (hLoop : ∀ w, (loop w).toOption = values.bind fun values => Value.acceptItems values w) :
    (tableToJson (.table name members) loop w).toOption =
      (values.bind Frame.closed).bind fun members => (Value.object members).accept w := by
  unfold tableToJson
  simp only [PropertyBag.isTable, assert_true, toOption_bind, toOption_ok, Option.bind_some,
    toOption_put, hLoop, Writer.startObject_eq]
  cases values with
  | none => simp
  | some values =>
      simp only [Option.bind_some]
      cases hPrefix : w.writePrefix .object with
      | none =>
          have hRefused (members : List (Bytes × Value Empty)) :
              (Value.object members).accept w = none :=
            Value.accept_of_refused (v := .object members) hPrefix
          simp [hRefused]
      | some w₁ =>
          have hAccepted (members : List (Bytes × Value Empty)) :
              (Value.object members).accept w = some (w₁.put (Value.object members).render) :=
            Value.accept_spec (.object members) hPrefix
          simp only [hAccepted, Option.map_some, Option.bind_some, Value.acceptItems_inside,
            Frame.closed]
          cases hPush : (Frame.object [] none).pushAll values with
          | none => rfl
          | some f =>
              rcases f with items | ⟨members, name | name⟩
              · rfl
              · simp [Writer.endObject_inside]
              · simp [Writer.endObject_inside]

/-- The name of a bag is written before its value. -/
private theorem named_written (name : Bytes) (w : Writer) {body : Writer → Encoding Writer}
    (values : Option (List (Value Empty)))
    (hBody : ∀ w, (body w).toOption = values.bind fun values => Value.acceptItems values w) :
    (writeName name w >>= body).toOption =
      (values.map (named name)).bind fun values => Value.acceptItems values w := by
  rw [toOption_bind]
  simp only [hBody]
  cases values with
  | none => simp
  | some values => exact writeName_written name w values

/-- One element of a container after the other. -/
private theorem append_written (w : Writer) {step rest : Writer → Encoding Writer}
    {values values' : Option (List (Value Empty))}
    (hStep : ∀ w, (step w).toOption = values.bind fun values => Value.acceptItems values w)
    (hRest : ∀ w, (rest w).toOption = values'.bind fun values => Value.acceptItems values w) :
    (step w >>= rest).toOption =
      (values.bind fun values => values'.map (values ++ ·)).bind
        fun values => Value.acceptItems values w := by
  rw [toOption_bind, hStep]
  simp only [hRest]
  cases values with
  | none => rfl
  | some values =>
      cases values' with
      | none => simp
      | some values' => simp [Value.acceptItems_append]

theorem acceptItems_singleton (v : Value Empty) (w : Writer) :
    Value.acceptItems [v] w = v.accept w := by
  simp [Value.acceptItems]

mutual

/-- The encoder succeeds exactly if the writer takes what is written for the bag. -/
theorem bagToJson_written : ∀ (bag : PropertyBag) (w : Writer),
    (bagToJson reg bag w).toOption =
      (written reg bag).bind fun values => Value.acceptItems values w
  | .empty, w => rfl
  | .property name prop, w => named_written name w _ (propertyToJson_written name prop)
  | .array name items, w => by
      have hArray (w : Writer) := arrayToJson_written name items w (itemsToJson_written items)
      have hNamed := named_written name w ((itemsWritten reg items).map fun values =>
        [.array values]) (fun w => by
          rw [hArray w, Option.bind_map]
          simp only [Function.comp_def, acceptItems_singleton])
      rwa [Option.map_map] at hNamed
  | .table name members, w => by
      have hTable (w : Writer) := tableToJson_written name members w (membersToJson_written members)
      have hNamed := named_written name w (((membersWritten reg members).bind Frame.closed).map
        fun members => [.object members]) (fun w => by
          rw [hTable w, Option.bind_map]
          simp only [Function.comp_def, acceptItems_singleton])
      rwa [Option.map_map] at hNamed

theorem itemsToJson_written : ∀ (items : List PropertyBag) (w : Writer),
    (itemsToJson reg items w).toOption =
      (itemsWritten reg items).bind fun values => Value.acceptItems values w
  | [], w => rfl
  | bag :: items, w => by
      refine append_written w (fun w => ?_) (itemsToJson_written items)
      unfold itemToJson
      split
      · rfl
      · exact bagToJson_written bag w

theorem membersToJson_written : ∀ (members : List (Bytes × PropertyBag)) (w : Writer),
    (membersToJson reg members w).toOption =
      (membersWritten reg members).bind fun values => Value.acceptItems values w
  | [], w => rfl
  | (key, bag) :: members, w => by
      refine append_written w (fun w => ?_) (membersToJson_written members)
      unfold memberToJson
      split
      · rfl
      · by_cases hName : key = bag.name
        · simp [hName, toOption_bind, assert_true, toOption_ok, bagToJson_written bag w]
        · simp [hName, toOption_bind, assert, toOption_error]

end

/-- An unnamed table is written as the object that its members make up. -/
theorem propertyBagToJson_table (members : List (Bytes × PropertyBag)) :
    (propertyBagToJson reg (.table [] members)).toOption =
      ((membersWritten reg members).bind Frame.closed).map fun members =>
        (Value.object members).render := by
  unfold propertyBagToJson
  rw [toOption_bind, bagToJson_written, written]
  cases (membersWritten reg members).bind Frame.closed with
  | none => rfl
  | some members =>
      simp only [named, ne_eq, not_true_eq_false, if_false, Option.map_some, Option.bind_some,
        acceptItems_singleton, Value.accept_new, pure, Except.pure, toOption_ok,
        Value.getString_render]

end

end Kexplorer.Props

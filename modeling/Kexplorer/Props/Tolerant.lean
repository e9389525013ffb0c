import Kexplorer.Json.RoundTrip
import Kexplorer.Props.Decode

/-!
# Decoding whatever comes

What the decoder makes of a document does not depend on the error handler as
long as that lets it go on: `keptOf` is this bag, with what is left of the parts
that do not fit.  The messages come from one script as well, and a handler only
decides how much of it there is (`policy_cuts`).
-/

namespace Kexplorer.Props

open Kexplorer.Json Kexplorer.Lib

section

variable (reg : Registry)

/-- The property of a scalar; one without a value if the scalar is rejected. -/
def keptProperty (name : CString) (v : JsonValue) : Property := (propertyOf reg name v).getD {}

/-- The bag of an array item; an empty one if the item is rejected. -/
def keptItem (type : TypeInfo) (v : JsonValue) (nested : PropertyBag) : PropertyBag :=
  (itemOf type v (some nested)).getD .empty

/-- The items of an array, none if the name is not that of an array. -/
def keptArray (name : CString) (items : TypeInfo → List PropertyBag) : List PropertyBag :=
  match reg.lookupName name with
  | some info => if info.type = .array then items info.base else []
  | none => []

mutual

/-- The bag of a document. -/
def keptOf (name : CString) : JsonValue → PropertyBag
  | .object members => .table name.bytes (keptMembers members [])
  | .array items => .array name.bytes (keptArray reg name fun type => keptItems type items)
  | v => .property name.bytes (keptProperty reg name v)

def keptItems (type : TypeInfo) : List JsonValue → List PropertyBag
  | [] => []
  | v :: items => keptItem type v (keptOf (literal "") v) :: keptItems type items

def keptMembers :
    List (Bytes × JsonValue) → List (Bytes × PropertyBag) → List (Bytes × PropertyBag)
  | [], table => table
  | (memberName, v) :: members, table =>
      keptMembers members (UnorderedMap.insert table memberName (keptOf (.ofMemory memberName) v))

end

end

/-- An error handler as a listener: after `Abort` the message is thrown. -/
def listener (eh : IPropertyErrorHandler) (past : List Bytes) (message : Bytes) : Option Bytes :=
  match eh.handle past message with
  | .Abort => some message
  | .Continue => none

theorem listener_eq_none_iff {eh : IPropertyErrorHandler} {past : List Bytes} {message : Bytes} :
    listener eh past message = none ↔ eh.handle past message = .Continue := by
  unfold listener
  split <;> simp [*]

theorem listener_eq_some_iff {eh : IPropertyErrorHandler} {past : List Bytes}
    {message what : Bytes} :
    listener eh past message = some what ↔ eh.handle past message = .Abort ∧ message = what := by
  unfold listener
  split <;> simp [*]

variable {reg : Registry}

/-- A message, and what is left. -/
private theorem tells_error {α : Type} (message : Bytes) (a : α) :
    Reporting.Tells listener (fun eh => do handleError eh message; return a) a :=
  .report message a

theorem propertyFromJsonValue_tells (name : CString) (v : JsonValue) :
    Reporting.Tells listener (fun eh => propertyFromJsonValue reg eh name v)
      (keptProperty reg name v) := by
  unfold propertyFromJsonValue keptProperty propertyOf
  split
  · simpa [getAs_array] using tells_error _ _
  · simpa [getAs_object] using tells_error _ _
  · cases hLookup : reg.lookupName name with
    | none => exact tells_error _ _
    | some info =>
        rw [Option.bind_some]
        dsimp only
        cases hExpected : info.type.expected with
        | none =>
            rw [getAs_eq_none hExpected]
            exact tells_error _ _
        | some expected =>
            dsimp only
            cases getAs info.type v with
            | none => exact tells_error _ _
            | some value => exact .pure _

theorem arrayItemFromJson_tells (arrayName : CString) (type : TypeInfo) (index : Nat)
    (v : JsonValue) {nested : IPropertyErrorHandler → Decoding PropertyBag} {bag : PropertyBag}
    (hNested : Reporting.Tells listener nested bag) :
    Reporting.Tells listener (fun eh => arrayItemFromJson eh arrayName type index v (nested eh))
      (keptItem type v bag) := by
  unfold arrayItemFromJson keptItem itemOf
  cases v with
  | object members => exact hNested
  | array items => simpa [getAs_array] using tells_error _ _
  | _ =>
      dsimp only
      cases hExpected : type.expectedItem with
      | none =>
          rw [getAs_eq_none (expectedItem_eq_none.mp hExpected)]
          exact tells_error _ _
      | some expected =>
          dsimp only
          split
          · rename_i value hValue
            rw [hValue]
            exact .pure _
          · rename_i hValue
            rw [hValue]
            exact tells_error _ _

theorem arrayFromJsonValue_tells (name : CString) (items : List JsonValue)
    {loop : IPropertyErrorHandler → TypeInfo → Decoding (List PropertyBag)}
    {array : TypeInfo → List PropertyBag}
    (hLoop : ∀ type, Reporting.Tells listener (fun eh => loop eh type) (array type)) :
    Reporting.Tells listener (fun eh => arrayFromJsonValue reg eh name (.array items) (loop eh))
      (keptArray reg name array) := by
  unfold arrayFromJsonValue keptArray
  cases hLookup : reg.lookupName name with
  | none => exact tells_error _ _
  | some info =>
      dsimp only
      by_cases hType : info.type = .array
      · rw [if_pos hType]
        simpa only [hType, ne_eq, not_true_eq_false, if_false] using hLoop info.base
      · rw [if_neg hType]
        simpa only [hType, ne_eq, not_false_eq_true, if_true] using tells_error _ _

private theorem scalar_tells (name : CString) (v : JsonValue) :
    Reporting.Tells listener (fun eh => do
        let property ← propertyFromJsonValue reg eh name v
        return PropertyBag.property name.bytes property)
      (.property name.bytes (keptProperty reg name v)) :=
  (propertyFromJsonValue_tells name v).bind (.pure _)

mutual

/-- Every handler is told from one script, and what is left in the end is `keptOf`. -/
theorem fromJsonValue_tells : ∀ (v : JsonValue) (name : CString),
    Reporting.Tells listener (fun eh => propertyBagFromJsonValue reg eh name v) (keptOf reg name v)
  | .object members, name => (membersFromJson_tells members []).bind (.pure _)
  | .array items, name =>
      (arrayFromJsonValue_tells name items fun type =>
        itemsFromJson_tells name type items 0).bind (.pure _)
  | .null, name => scalar_tells name .null
  | .bool b, name => scalar_tells name (.bool b)
  | .integer n, name => scalar_tells name (.integer n)
  | .double d, name => scalar_tells name (.double d)
  | .string s, name => scalar_tells name (.string s)

theorem itemsFromJson_tells (name : CString) (type : TypeInfo) :
    ∀ (items : List JsonValue) (index : Nat),
      Reporting.Tells listener (fun eh => itemsFromJson reg eh name type index items)
        (keptItems reg type items)
  | [], _ => .pure _
  | v :: items, index => by
      have hItem := arrayItemFromJson_tells name type index v (fromJsonValue_tells v (literal ""))
      exact hItem.bind ((itemsFromJson_tells name type items (index + 1)).bind (.pure _))

theorem membersFromJson_tells : ∀ (members : List (Bytes × JsonValue))
    (table : List (Bytes × PropertyBag)),
    Reporting.Tells listener (fun eh => membersFromJson reg eh members table)
      (keptMembers reg members table)
  | [], _ => .pure _
  | (memberName, v) :: members, table =>
      (fromJsonValue_tells v (.ofMemory memberName)).bind (membersFromJson_tells members _)

end

/-! ## The error handler's policy -/

/-- A handler that always goes on. -/
def continuing : IPropertyErrorHandler := ⟨fun _ _ => .Continue⟩

/-- A parsed text is told from one script, which a handler that always goes on hears out. -/
theorem propertyBagFromJson_told (reg : Registry) {strtod : Bytes → Option Double} {json : Bytes}
    {doc : JsonValue} (hParse : parse strtod json = .ok doc) :
    ∃ messages,
      (∀ eh, propertyBagFromJson reg eh strtod json =
        .telling (listener eh) messages (keptOf reg (literal "") doc)) ∧
      ∀ past, propertyBagFromJson reg continuing strtod json past =
        (.ok (keptOf reg (literal "") doc), messages) := by
  have hTells : Reporting.Tells listener (fun eh => propertyBagFromJson reg eh strtod json)
      (keptOf reg (literal "") doc) := by
    unfold propertyBagFromJson
    rw [hParse]
    exact fromJsonValue_tells doc (literal "")
  exact hTells.heard_out (h := continuing) fun _ _ => rfl

/-- The handler answers `Continue` to each of the messages, asked after those before it. -/
def GoesOn (eh : IPropertyErrorHandler) (messages : List Bytes) : Prop :=
  ∀ before message after, messages = before ++ message :: after →
    eh.handle before message = .Continue

/-- The handler hears what a handler hears that always goes on, and the bag is the same; or it hears
the part up to the first message that it answers `Abort`, and this message is thrown. -/
def PolicyCuts (reg : Registry) (strtod : Bytes → Option Double) (eh : IPropertyErrorHandler)
    (json : Bytes) : Prop :=
  ∃ messages bag,
    propertyBagFromJson reg continuing strtod json [] = (.ok bag, messages) ∧
      (GoesOn eh messages ∧ propertyBagFromJson reg eh strtod json [] = (.ok bag, messages) ∨
        ∃ before message after, messages = before ++ message :: after ∧ GoesOn eh before ∧
          eh.handle before message = .Abort ∧
          propertyBagFromJson reg eh strtod json [] = (.error message, before ++ [message]))

/-- The policy of an error handler only decides where decoding stops. -/
theorem policy_cuts (reg : Registry) (strtod : Bytes → Option Double) (eh : IPropertyErrorHandler)
    {json : Bytes} {doc : JsonValue} (hParse : parse strtod json = .ok doc) :
    PolicyCuts reg strtod eh json := by
  obtain ⟨messages, hTold, hAll⟩ := propertyBagFromJson_told reg hParse
  refine ⟨messages, keptOf reg (literal "") doc, hAll [], ?_⟩
  rw [hTold eh, Reporting.telling_eq]
  rcases Reporting.heard_cases (listener eh) messages [] with
    ⟨hHeard, hGoes⟩ | ⟨before, message, after, what, hCut, hGoes, hStops, hHeard⟩
  · rw [hHeard]
    exact .inl ⟨fun before message after hEq =>
      listener_eq_none_iff.mp (hGoes before message after hEq), rfl⟩
  · rw [hHeard]
    obtain ⟨hAbort, rfl⟩ := listener_eq_some_iff.mp hStops
    exact .inr ⟨before, message, after, hCut, fun before' message' after' hEq =>
      listener_eq_none_iff.mp (hGoes before' message' after' hEq), hAbort, rfl⟩

theorem policy_cuts_flag :
    PolicyCuts Registry.empty (fun _ => none) ⟨fun _ _ => .Abort⟩
      (Value.render (.object [(ascii "flag", .bool true)])) :=
  policy_cuts Registry.empty (fun _ => none) ⟨fun _ _ => .Abort⟩ (parse_render (fun _ => none) _)

/-- An object with half of a surrogate pair in a string. -/
def halfPair : Bytes := ascii "\x7b\"x\":\"\\ud800\"\x7d"

theorem isObject_halfPair : IsObject halfPair := by
  have hName : StringLit unescaped [0x22, 0x78, 0x22] :=
    ⟨[0x78], .raw ⟨by decide, by decide, by decide⟩ .nil, rfl⟩
  have hValue : StringLit unescaped (ascii "\"\\ud800\"") := by
    have hHex : ∀ c ∈ ascii "d800", isHexDigit c = true := by decide +kernel
    exact ⟨0x5C :: 0x75 :: (ascii "d800" ++ []), .unicode rfl hHex .nil, by decide +kernel⟩
  have hText : halfPair = 0x7B :: ([] ++ [0x22, 0x78, 0x22] ++ [] ++
      0x3A :: ([] ++ ascii "\"\\ud800\"" ++ []) ++ [0x7D]) := by
    decide +kernel
  rw [hText]
  exact .object (.member ws_nil hName ws_nil ws_nil (.string hValue) ws_nil)

/-- The reader refuses it, and the handler is not asked. -/
theorem halfPair_throws (reg : Registry) (eh : IPropertyErrorHandler) :
    ∃ what, propertyBagFromJson reg eh (fun _ => none) halfPair [] = (.error what, []) := by
  have hRefused : (parse (fun _ => none) halfPair).isOk = false := by decide +kernel
  unfold propertyBagFromJson
  cases hParse : parse (fun _ => none) halfPair with
  | ok doc =>
      rw [hParse] at hRefused
      cases hRefused
  | error error => exact ⟨_, rfl⟩

/-- An exception although nothing was answered `Abort`. -/
theorem halfPair_not_cut :
    IsJson halfPair ∧
      (∃ what, propertyBagFromJson Registry.empty continuing (fun _ => none) halfPair [] =
        (.error what, [])) ∧
      ¬ PolicyCuts Registry.empty (fun _ => none) continuing halfPair := by
  obtain ⟨what, hThrows⟩ := halfPair_throws Registry.empty continuing
  refine ⟨?_, ⟨what, hThrows⟩, ?_⟩
  · exact ⟨[], halfPair, [], ws_nil, .ofObject isObject_halfPair, ws_nil, (List.append_nil _).symm⟩
  · rintro ⟨messages, bag, hContinued, -⟩
    cases hThrows.symm.trans hContinued
end Kexplorer.Props

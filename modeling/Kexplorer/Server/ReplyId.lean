import Kexplorer.Json.Denotation
import Kexplorer.Process.ProcessProps
import Kexplorer.Props.Exact
import Kexplorer.Server.GlobalCmdHandler

/-!
# The id of a reply

A reply is to carry the id of its request.  The `catch` block stands outside the
scope of the id and answers with 0, so the id gets lost if anything is thrown: by
the decoder, for a JSON text that the reader does not take; for a command that is a
scalar but no string; by a handler; or by the encoder, whose assertions end the
program (`carriesId_iff`).

A handler is trusted to put the id it was given into the response if it
succeeds, and no other id in any case (`PutsId`).
-/

namespace Kexplorer.Server

open Kexplorer.Json Kexplorer.Lib Kexplorer.Props Kexplorer.Util

/-! ## The id in a response -/

/-- The id that `addToTable` puts into a response. -/
def idProperty (id : Int32) : PropertyBag :=
  .property Request.Id.idstr.bytes { id := Request.Id.id, value := some (.int id) }

def HasId (id : Int32) (members : List (Bytes × PropertyBag)) : Prop :=
  UnorderedMap.find members Request.Id.idstr.bytes = some (idProperty id)

def NoOtherId (id : Int32) (members : List (Bytes × PropertyBag)) : Prop :=
  UnorderedMap.find members Request.Id.idstr.bytes = none ∨ HasId id members

/-- A handler that succeeds puts the id into the response, and no handler puts another one. -/
structure PutsId {σ : Type} (P : IRequestHandler σ) : Prop where
  noOther : ∀ {sessionId key id request members w members'}, NoOtherId id members →
    (P.process sessionId key id request (.table [] members) w).2.1 = .table [] members' →
    NoOtherId id members'
  puts : ∀ {sessionId key id request members w members'}, NoOtherId id members →
    (P.process sessionId key id request (.table [] members) w).1 = .ok true →
    (P.process sessionId key id request (.table [] members) w).2.1 = .table [] members' →
    HasId id members'

/-- What is in a table stays there when something is added. -/
theorem HasId.insert {id : Int32} {members : List (Bytes × PropertyBag)} (h : HasId id members)
    (key : Bytes) (bag : PropertyBag) : HasId id (UnorderedMap.insert members key bag) := by
  unfold HasId at h ⊢
  rw [UnorderedMap.find_insert, h, Option.some_or]

theorem HasId.addAll {id : Int32} (fields : List (PropertyInfo × Any)) :
    ∀ {name : Bytes} {members members' : List (Bytes × PropertyBag)}, HasId id members →
      addAll fields (.table name members) = .table name members' → HasId id members' := by
  induction fields with
  | nil =>
      intro name members members' h hEq
      cases hEq
      exact h
  | cons field fields ih => exact fun h hEq => ih (h.insert _ _) hEq

/-- Adding the id puts it, unless it is there already. -/
theorem NoOtherId.insert {id : Int32} {members : List (Bytes × PropertyBag)}
    (h : NoOtherId id members) :
    HasId id (UnorderedMap.insert members Request.Id.idstr.bytes (idProperty id)) := by
  rcases h with hNone | hId
  · unfold HasId
    rw [UnorderedMap.find_insert, hNone, Option.none_or, if_pos rfl]
  · exact hId.insert _ _

/-- The server's own commands are answered with the id. -/
theorem GlobalCmdHandler.putsId (h : GlobalCmdHandler) : PutsId h.handler := by
  have hAdded {id : Int32} {fields : List (PropertyInfo × Any)} {members members' :
      List (Bytes × PropertyBag)} (hNoOther : NoOtherId id members)
      (hEq : addAll ((Request.Id, .int id) :: fields) (.table [] members) = .table [] members') :
      HasId id members' :=
    HasId.addAll fields hNoOther.insert hEq
  constructor
  · intro sessionId key id request members w members' hNoOther hEq
    change (h.process sessionId key id request (.table [] members) w).2.1 = _ at hEq
    unfold process at hEq
    split at hEq
    · exact .inr (hAdded hNoOther hEq)
    · split at hEq
      · exact .inr (hAdded hNoOther hEq)
      · cases hEq
        exact hNoOther
  · intro sessionId key id request members w members' hNoOther hTrue hEq
    change (h.process sessionId key id request (.table [] members) w).1 = _ at hTrue
    change (h.process sessionId key id request (.table [] members) w).2.1 = _ at hEq
    unfold process at hTrue hEq
    split at hEq
    · exact hAdded hNoOther hEq
    · rename_i hStop
      rw [if_neg hStop] at hTrue
      split at hEq
      · exact hAdded hNoOther hEq
      · rename_i hVersion
        rw [if_neg hVersion] at hTrue
        cases hTrue

namespace RequestProcessor

variable {σ η : Type}

/-- The handlers of a command leave the id in the response if the last one succeeds. -/
theorem callHandlers_putsId {impl : η → IRequestHandler σ} (sessionId : UInt32) (key : CString)
    (id : Int32) (request : PropertyBag) {handlers : List η}
    (hHandlers : ∀ handler ∈ handlers, PutsId (impl handler)) :
    ∀ {members members' : List (Bytes × PropertyBag)} {found : Bool} {w w' : σ},
      NoOtherId id members → (found = true → HasId id members) →
      callHandlers impl sessionId key id request handlers (.table [] members) found w =
        (.ok true, .table [] members', w') → HasId id members' := by
  induction handlers with
  | nil =>
      intro members members' found w w' _ hFound hEq
      cases hEq
      exact hFound rfl
  | cons handler handlers ih =>
      intro members members' found w w' hNoOther _ hEq
      obtain ⟨hHandler, hRest⟩ := List.forall_mem_cons.mp hHandlers
      obtain ⟨members₁, hTable⟩ := (impl handler).keepsTable sessionId key id request members w
      have hNext := hHandler.noOther hNoOther hTable
      have hPuts := fun hTrue => hHandler.puts hNoOther hTrue hTable
      unfold callHandlers at hEq
      generalize (impl handler).process sessionId key id request (.table [] members) w = result
        at hEq hTable hPuts
      obtain ⟨answer, response, w₁⟩ := result
      dsimp only at hTable hPuts
      subst hTable
      cases answer with
      | error what => cases hEq
      | ok found₁ => exact ih hRest hNext (fun hTrue => hPuts (congrArg Except.ok hTrue)) hEq

/-! ## The id in a reply -/

/-- The reply is the text of an object with the id. -/
def CarriesId (id : Int32) (reply : Reply) : Prop :=
  ∃ members, reply = .returned (Value.render (.object members)) ∧
    (Request.Id.idstr.bytes, Value.integer (.ofInt32 id)) ∈ members

theorem not_carriesId_terminated (id : Int32) : ¬ CarriesId id .terminated := nofun

/-- What the text of an object says is its members. -/
theorem carriesId_object {id : Int32} {members : List (Bytes × Value Empty)} :
    CarriesId id (.returned (Value.render (.object members))) ↔
      (Request.Id.idstr.bytes, Value.integer (.ofInt32 id)) ∈ members := by
  constructor
  · rintro ⟨members', hText, hMem⟩
    have hParse := (parse_render (fun _ => none) (.object members')).symm.trans
      ((congrArg _ (Reply.returned.inj hText).symm).trans
        (parse_render (fun _ => none) (.object members)))
    have hLift : (Value.liftMembers members' : List (Bytes × JsonValue)) =
        Value.liftMembers members :=
      Value.object.inj (Except.ok.inj hParse)
    rw [Value.liftMembers_eq_map, Value.liftMembers_eq_map] at hLift
    have hIn := List.mem_map_of_mem (f := fun m => (m.1, (m.2.lift : JsonValue))) hMem
    rw [hLift] at hIn
    obtain ⟨⟨key, v⟩, hV, hEq⟩ := List.mem_map.mp hIn
    obtain ⟨rfl, hValue⟩ := Prod.mk.inj hEq
    cases v with
    | integer n =>
        cases hValue
        exact hV
    | double d => exact d.elim
    | _ => cases hValue
  · exact fun hMem => ⟨members, rfl, hMem⟩

/-- A failure carries the id that it is given, and no other. -/
theorem carriesId_fail {id id' : Int32} {reason : CString} :
    CarriesId id (answer (Response.fail id' reason)) ↔ id = id' := by
  have hNames : Request.Id.idstr.bytes ≠ Response.Status.idstr.bytes ∧
      Request.Id.idstr.bytes ≠ Response.Reason.idstr.bytes := by decide
  rw [Response.fail_eq]
  refine carriesId_object.trans ?_
  simp only [List.mem_cons, Prod.mk.injEq, hNames.1, hNames.2, true_and, false_and, List.not_mem_nil,
    or_false, Value.integer.injEq]
  constructor
  · intro h
    exact Int32.toInt_inj.mp (congrArg Integer.val h)
  · rintro rfl
    rfl

/-- Values behind a name and an integer among those of an object are a member of it, because no
integer is a name. -/
theorem mem_of_flatten {name : Bytes} {n : Integer} {after : List (Value Empty)} :
    ∀ {members : List (Bytes × Value Empty)} {before : List (Value Empty)},
      flatten members = before ++ .string name :: .integer n :: after →
      (name, .integer n) ∈ members
  | [], before, h => by cases before <;> cases h
  | (key, v) :: members, [], h => by
      cases h
      exact List.mem_cons_self
  | (key, v) :: members, [x], h => by
      obtain ⟨-, hTail⟩ := List.cons.inj h
      obtain ⟨-, hTail⟩ := List.cons.inj hTail
      cases members with
      | nil => cases hTail
      | cons m members => cases hTail
  | (key, v) :: members, x :: y :: before, h => by
      obtain ⟨-, hTail⟩ := List.cons.inj h
      obtain ⟨-, hTail⟩ := List.cons.inj hTail
      exact List.mem_cons_of_mem _ (mem_of_flatten hTail)

/-- What is written for the members contains what is written for each of them. -/
theorem membersWritten_of_mem {reg : Registry} {members : List (Bytes × PropertyBag)}
    {key : Bytes} {bag : PropertyBag} (hMem : (key, bag) ∈ members) (hEmpty : bag.isEmpty = false) :
    ∀ {values : List (Value Empty)}, membersWritten reg members = some values →
      ∃ before body after, written reg bag = some body ∧ values = before ++ body ++ after := by
  induction members with
  | nil => cases hMem
  | cons m members ih =>
      intro values h
      rw [membersWritten] at h
      obtain ⟨first, hFirst, h⟩ := Option.bind_eq_some_iff.mp h
      obtain ⟨rest, hRest, rfl⟩ := Option.map_eq_some_iff.mp h
      rcases List.mem_cons.mp hMem with rfl | hMem
      · rw [hEmpty, if_neg Bool.false_ne_true] at hFirst
        split at hFirst
        · exact ⟨[], first, rest, hFirst, rfl⟩
        · cases hFirst
      · obtain ⟨before, body, after, hBody, rfl⟩ := ih hMem hRest
        exact ⟨first ++ before, body, after, hBody, by simp⟩

/-- The encoder keeps the id of a response. -/
theorem carriesId_encoded {reg : Registry} (hRegistered : reg.Registered Request.Id) {id : Int32}
    {members : List (Bytes × PropertyBag)} (hId : HasId id members) {out : Bytes}
    (h : propertyBagToJson reg (.table [] members) = .ok out) : CarriesId id (.returned out) := by
  have hEncoded := (congrArg Except.toOption h).symm.trans (propertyBagToJson_table members)
  obtain ⟨object, hObject, rfl⟩ := Option.map_eq_some_iff.mp hEncoded.symm
  obtain ⟨values, hValues, hClosed⟩ := Option.bind_eq_some_iff.mp hObject
  obtain ⟨before, body, after, hBody, rfl⟩ :=
    membersWritten_of_mem (UnorderedMap.mem_of_find hId) rfl hValues
  have hIdBody : written reg (idProperty id) =
      some [.string Request.Id.idstr.bytes, .integer (.ofInt32 id)] := by
    have hType : typeOf reg { id := Request.Id.id, value := some (.int id) } (.int id) = .int := by
      rw [typeOf, hRegistered.1]
      rfl
    rw [idProperty, written, propertyWritten, Option.bind_some, hType]
    rfl
  cases hIdBody.symm.trans hBody
  have hFlat : flatten object =
      before ++ .string Request.Id.idstr.bytes :: .integer (.ofInt32 id) :: after := by
    rw [← eq_flatten_of_closed hClosed, List.append_assoc]
    rfl
  exact ⟨object, rfl, mem_of_flatten hFlat⟩

/-! ## When the id is kept -/

section

variable (reg : Registry) (impl : η → IRequestHandler σ) (rp : RequestProcessor η)
  (sessionId : UInt32) (id : Int32) (members : List (Bytes × JsonValue)) (w : σ)

/-- The response that the handlers of a command built is encoded, or encoding it throws although the
id is 0. -/
def Encodes (response : PropertyBag) : Prop :=
  match propertyBagToJson reg response with
  | .ok _ => True
  | .error (.exception _) => id = 0
  | .error .assertion => False

/-- Unless the id is 0, the command is no scalar other than a string and no handler of the command
throws; and if the last of them succeeds, the response is encoded. -/
def KeepsId : Prop :=
  (∀ v, UnorderedMap.find members Request.Command.idstr.bytes = some v → IsScalar v →
    (∀ key, v ≠ .string key) → id = 0) ∧
  ∀ key, UnorderedMap.find members Request.Command.idstr.bytes = some (.string key) →
    match callHandlers impl sessionId (.ofMemory key) id (keptAt reg .root (.object members))
        (rp.equalRange key) (.table [] []) false w with
    | (.error _, _, _) => id = 0
    | (.ok false, _, _) => True
    | (.ok true, response, _) => Encodes reg id response

end

/-- The id and the command as the decoder leaves them. -/
theorem find_kept {reg : Registry} {info : PropertyInfo} {members : List (Bytes × JsonValue)} :
    UnorderedMap.find (keptMembers reg members []) info.idstr.bytes =
      (UnorderedMap.find members info.idstr.bytes).map
        (keptOf reg info.idstr) := by
  rw [find_keptMembers]
  congr 1
  funext v
  show keptOf reg (.ofMemory info.idstr.bytes) v = _
  rw [CString.ofMemory_bytes]

theorem requestIdOf_kept {reg : Registry} (hRegistered : reg.Registered Request.Id)
    {members : List (Bytes × JsonValue)} {id : Int32}
    (hId : UnorderedMap.find members Request.Id.idstr.bytes = some (.integer (.ofInt32 id))) :
    requestIdOf (keptMembers reg members []) = .ok id := by
  have hKept : keptOf reg Request.Id.idstr (.integer (.ofInt32 id)) =
      .property Request.Id.idstr.bytes
        { id := Request.Id.id, value := some (.int id), info := some Request.Id } := by
    have hValue : getAs Request.Id.type (.integer (.ofInt32 id)) = some (.int id) :=
      getAs_eq_some_iff.mpr ⟨rfl, rfl⟩
    show PropertyBag.property _ (keptProperty reg _ _) = _
    rw [keptProperty, propertyOf, hRegistered.2, Option.bind_some, hValue]
    rfl
  unfold requestIdOf
  rw [find_kept, hId, Option.map_some, hKept]

/-- The property made of a scalar command has a value if this is a string. -/
private theorem keptProperty_command {reg : Registry} (hRegistered : reg.Registered Request.Command)
    (v : JsonValue) : keptProperty reg Request.Command.idstr v =
      match getAs .string v with
      | some value =>
          { id := Request.Command.id, value := some value, info := some Request.Command }
      | none => {} := by
  rw [keptProperty, propertyOf, hRegistered.2, Option.bind_some]
  change (Option.map _ (getAs .string v)).getD ({} : Property) = _
  cases getAs .string v <;> rfl

/-- What becomes of the command: a string is the key of the handlers, a container is ill-formed, and
any other scalar has left a property without a value. -/
theorem commandOf_kept {reg : Registry} (hRegistered : reg.Registered Request.Command)
    (members : List (Bytes × JsonValue)) (id : Int32) :
    commandOf (keptMembers reg members []) id =
      match UnorderedMap.find members Request.Command.idstr.bytes with
      | none => .error (answer (Response.fail id (literal "Unsupported request")))
      | some (.string key) => .ok key
      | some (.array _) | some (.object _) =>
          .error (answer (Response.fail id (literal "Ill-formed request")))
      | some _ => .error (caught badAnyCast) := by
  unfold commandOf
  rw [find_kept]
  cases UnorderedMap.find members Request.Command.idstr.bytes with
  | none => rfl
  | some v =>
      rw [Option.map_some]
      cases v with
      | array items => rfl
      | object members' => rfl
      | _ =>
          unfold keptOf
          dsimp only
          rw [keptProperty_command hRegistered]
          rfl

/-- The part of `process` behind the command. -/
private theorem carriesId_handled {reg : Registry} (hRegistered : reg.Registered Request.Id)
    {impl : η → IRequestHandler σ} {handlers : List η}
    (hHandlers : ∀ handler ∈ handlers, PutsId (impl handler)) (sessionId : UInt32) (key : CString)
    (id : Int32) (request : PropertyBag) (w : σ) :
    CarriesId id
        (match callHandlers impl sessionId key id request handlers (.table [] []) false w with
          | (.error what, _, w) => (caught what, w)
          | (.ok false, _, w) =>
              (answer (Response.fail id (literal "Unsupported request")), w)
          | (.ok true, response, w) =>
              match propertyBagToJson reg response with
              | .ok out => (.returned out, w)
              | .error (.exception what) => (caught what, w)
              | .error .assertion => (.terminated, w)).1 ↔
      match callHandlers impl sessionId key id request handlers (.table [] []) false w with
      | (.error _, _, _) => id = 0
      | (.ok false, _, _) => True
      | (.ok true, response, _) => Encodes reg id response := by
  obtain ⟨members, hTable⟩ := callHandlers_table impl sessionId key id request handlers [] false w
  have hPuts := @callHandlers_putsId _ _ _ sessionId key id request _ hHandlers [] members false w
  generalize callHandlers impl sessionId key id request handlers (.table [] []) false w = result
    at hTable hPuts ⊢
  obtain ⟨found, response, w'⟩ := result
  dsimp only at hTable
  subst hTable
  cases found with
  | error what => exact carriesId_fail
  | ok found =>
      cases found with
      | false => exact iff_of_true (carriesId_fail.mpr rfl) trivial
      | true =>
          have hId : HasId id members := hPuts (.inl rfl) nofun rfl
          dsimp only
          unfold Encodes
          cases hOut : propertyBagToJson reg (.table [] members) with
          | ok out => exact iff_of_true (carriesId_encoded hRegistered hId hOut) trivial
          | error failure =>
              cases failure with
              | exception what => exact carriesId_fail
              | assertion => exact iff_of_false (not_carriesId_terminated id) fun h => h

/-- The reply to a request that the reader takes. -/
private theorem carriesId_parsed {reg : Registry} (hIdRegistered : reg.Registered Request.Id)
    (hCommandRegistered : reg.Registered Request.Command) {strtod : Bytes → Option Double}
    {impl : η → IRequestHandler σ} {rp : RequestProcessor η}
    (hHandlers : ∀ entry ∈ rp.handlers, PutsId (impl entry.2)) {request : Bytes}
    {members : List (Bytes × JsonValue)} (hParse : parse strtod request = .ok (.object members))
    {id : Int32}
    (hId : UnorderedMap.find members Request.Id.idstr.bytes = some (.integer (.ofInt32 id)))
    (sessionId : UInt32) (length : Nat) (w : σ) :
    CarriesId id (process reg strtod impl rp sessionId request length w).1 ↔
      KeepsId reg impl rp sessionId id members w := by
  obtain ⟨messages, -, hAll⟩ := propertyBagFromJson_told reg hParse
  have hDecode : propertyBagFromJson reg JsonErrorHandler strtod request [] =
      (.ok (.table [] (keptMembers reg members [])), messages) := hAll []
  unfold process
  rw [hDecode]
  dsimp only
  unfold processTable
  rw [requestIdOf_kept hIdRegistered hId]
  dsimp only
  rw [commandOf_kept hCommandRegistered]
  unfold KeepsId
  cases hCommand : UnorderedMap.find members Request.Command.idstr.bytes with
  | none =>
      refine iff_of_true (carriesId_fail.mpr rfl) ⟨nofun, nofun⟩
  | some v =>
      cases v with
      | array items =>
          refine iff_of_true (carriesId_fail.mpr rfl) ⟨?_, nofun⟩
          rintro _ ⟨⟩ hScalar
          exact absurd rfl (hScalar.1 items)
      | object members' =>
          refine iff_of_true (carriesId_fail.mpr rfl) ⟨?_, nofun⟩
          rintro _ ⟨⟩ hScalar
          exact absurd rfl (hScalar.2 members')
      | string key =>
          have hTyped : ∀ v, some (Value.string key : JsonValue) = some v → IsScalar v →
              (∀ key', v ≠ .string key') → id = 0 := by
            rintro _ ⟨⟩ - hNot
            exact absurd rfl (hNot key)
          refine Iff.trans ?_ (and_iff_right hTyped).symm
          refine Iff.trans ?_ ⟨?_, fun h => h key rfl⟩
          rotate_left
          · rintro h _ ⟨⟩
            exact h
          have hEntries : ∀ handler ∈ rp.equalRange key, PutsId (impl handler) := by
            intro handler hHandler
            obtain ⟨entry, hEntry, rfl⟩ := List.mem_map.mp hHandler
            exact hHandlers entry (List.mem_of_mem_filter hEntry)
          exact carriesId_handled hIdRegistered hEntries sessionId (.ofMemory key) id _ w
      | _ =>
          refine carriesId_fail.trans ⟨fun h => ⟨fun _ _ _ _ => h, nofun⟩, fun h => ?_⟩
          exact h.1 _ rfl ⟨nofun, nofun⟩ nofun

/-- The reply to any text that the reader refuses has the id 0. -/
private theorem carriesId_refused (reg : Registry) {strtod : Bytes → Option Double}
    (impl : η → IRequestHandler σ) (rp : RequestProcessor η) {request : Bytes}
    {error : ParseErrorCode × Nat} (hParse : parse strtod request = .error error) {id : Int32}
    (sessionId : UInt32) (length : Nat) (w : σ) :
    CarriesId id (process reg strtod impl rp sessionId request length w).1 ↔ id = 0 := by
  have hDecode : propertyBagFromJson reg JsonErrorHandler strtod request [] =
      (.error (ascii "Failed to parse JSON: [" ++ error.1.text ++ ascii "] at " ++
        decimal error.2), []) := by
    unfold propertyBagFromJson
    rw [hParse]
    rfl
  unfold process
  rw [hDecode]
  exact carriesId_fail

/-- The reply to an object with an id carries this id if and only if it is 0 or the reader takes the
text, and nothing is thrown behind the decoder, or the id is 0.  What the id of a text is that the
reader refuses makes no difference. -/
theorem carriesId_iff {reg : Registry} (hIdRegistered : reg.Registered Request.Id)
    (hCommandRegistered : reg.Registered Request.Command) {strtod : Bytes → Option Double}
    {impl : η → IRequestHandler σ} {rp : RequestProcessor η}
    (hHandlers : ∀ entry ∈ rp.handlers, PutsId (impl entry.2)) {request : Bytes}
    (hObject : IsJsonObject (cstr request)) {id : Int32}
    (hId : ∀ members, parse strtod request = .ok (.object members) →
      UnorderedMap.find members Request.Id.idstr.bytes = some (.integer (.ofInt32 id)))
    (sessionId : UInt32) (length : Nat) (w : σ) :
    CarriesId id (process reg strtod impl rp sessionId request length w).1 ↔
      (id = 0 ∨ ∃ doc, parse strtod request = .ok doc) ∧
        ∀ members, parse strtod request = .ok (.object members) →
          KeepsId reg impl rp sessionId id members w := by
  cases hParse : parse strtod request with
  | error error =>
      refine (carriesId_refused reg impl rp hParse sessionId length w).trans ⟨fun hZero => ?_, ?_⟩
      · exact ⟨.inl hZero, fun _ hOk => by cases hOk⟩
      · rintro ⟨hZero | ⟨doc, hOk⟩, -⟩
        · exact hZero
        · cases hOk
  | ok doc =>
      obtain ⟨members, rfl⟩ := object_of_parse hObject hParse
      have hCarries := carriesId_parsed hIdRegistered hCommandRegistered hHandlers hParse
        (hId members hParse) sessionId length w
      refine hCarries.trans ⟨fun hKeeps => ⟨.inr ⟨_, rfl⟩, ?_⟩, fun hBoth => hBoth.2 members rfl⟩
      rintro _ ⟨⟩
      exact hKeeps

/-- A request with an id and a command. -/
def requestOf (id : Int32) (command : Value Empty) : Value Empty :=
  .object [(Request.Id.idstr.bytes, .integer (.ofInt32 id)),
    (Request.Command.idstr.bytes, command)]

/-- The request of a client for the version. -/
def versionText : Bytes := (requestOf 5 (.string (ascii "version"))).render

theorem carriesId_iff_version :
    CarriesId 5 (process knownRegistry (fun _ => none) GlobalCmdHandler.handler
        ⟨[(ascii "version", ⟨ascii "1.0"⟩)]⟩ 1 versionText 0 false).1 ↔
      ((5 : Int32) = 0 ∨ ∃ doc, parse (fun _ => none) versionText = .ok doc) ∧
        ∀ members, parse (fun _ => none) versionText = .ok (.object members) →
          KeepsId knownRegistry GlobalCmdHandler.handler ⟨[(ascii "version", ⟨ascii "1.0"⟩)]⟩ 1 5
            members false := by
  have hCstr : cstr versionText = versionText := cstr_eq_self (zero_notMem_render _)
  refine carriesId_iff (registered_of_mem (by simp [knownProps]))
    (registered_of_mem (by simp [knownProps])) (fun entry _ => entry.2.putsId) ?_ ?_ 1 0 false
  · rw [hCstr]
    exact ⟨[], versionText, [], ws_nil, isObject_render _, ws_nil, (List.append_nil _).symm⟩
  · intro members hParse
    cases (parse_render (fun _ => none) (requestOf 5 (.string (ascii "version")))).symm.trans hParse
    rfl

/-- A command that is a number is answered with the id 0. -/
theorem mistyped_command_loses_id :
    (requestOf 5 (.integer (.ofInt32 7))).render =
        ascii "\x7b\"request.id\":5,\"request.request\":7\x7d" ∧
      (process knownRegistry (fun _ => none) GlobalCmdHandler.handler ⟨[]⟩ 1
          (requestOf 5 (.integer (.ofInt32 7))).render 0 false).1 =
        answer (Response.fail 0 (literal "bad any_cast")) ∧
      ¬ CarriesId 5 (process knownRegistry (fun _ => none) GlobalCmdHandler.handler ⟨[]⟩ 1
        (requestOf 5 (.integer (.ofInt32 7))).render 0 false).1 := by
  have hText : (requestOf 5 (.integer (.ofInt32 7))).render =
      ascii "\x7b\"request.id\":5,\"request.request\":7\x7d" := by
    decide +kernel
  have hReply : (process knownRegistry (fun _ => none) GlobalCmdHandler.handler ⟨[]⟩ 1
      (requestOf 5 (.integer (.ofInt32 7))).render 0 false).1 =
        answer (Response.fail 0 (literal "bad any_cast")) := by
    decide +kernel
  refine ⟨hText, hReply, ?_⟩
  rw [hReply]
  exact fun h => absurd (carriesId_fail.mp h) (by decide)

end RequestProcessor

end Kexplorer.Server

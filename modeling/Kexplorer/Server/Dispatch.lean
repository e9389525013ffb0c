import Kexplorer.Server.ReplyId
import Mathlib.Data.List.Perm.Basic

/-!
# Registered handlers

Handlers are registered and unregistered under keys.  The order in which the
multimap visits the handlers of a key is not specified, so a registration may
leave them in any order.

The loop of `process` keeps the answer of the last handler only.  If it is
`false`, the response of those that have succeeded is lost.  And a response that
the encoder does not take is lost as well (`dispatches_iff`).
-/

namespace Kexplorer.Server.RequestProcessor

open Kexplorer.Json Kexplorer.Props Kexplorer.Util

variable {σ η : Type}

/-- A call that changes `m_handlers`. -/
inductive Registration (η : Type)
  | registerHandler (key : CString) (handler : η)
  | unregisterHandler (key : CString) (handler : η)

/-- `registerHandler`: the entry may be inserted anywhere, and the others be rearranged. -/
def registerHandler (rp : RequestProcessor η) (key : CString) (handler : η)
    (rp' : RequestProcessor η) : Prop :=
  rp'.handlers.Perm ((key.bytes, handler) :: rp.handlers)

section

variable [DecidableEq η]

/-- `unregisterHandler`: the first entry of the key with this handler is erased. -/
def unregisterHandler (rp : RequestProcessor η) (key : CString) (handler : η) :
    RequestProcessor η :=
  ⟨rp.handlers.erase (key.bytes, handler)⟩

/-- What a call may leave. -/
def Leaves (rp : RequestProcessor η) (rp' : RequestProcessor η) : Registration η → Prop
  | .registerHandler key handler => rp.registerHandler key handler rp'
  | .unregisterHandler key handler => rp' = rp.unregisterHandler key handler

/-- The processor after a sequence of calls. -/
inductive After : List (Registration η) → RequestProcessor η → Prop
  | nil : After [] ⟨[]⟩
  | snoc {history rp call rp'} : After history rp → Leaves rp rp' call →
      After (history ++ [call]) rp'

/-- What a call makes of the number of registrations of a handler: an unregistration takes one back,
if there is one. -/
def Registration.counted (key : Bytes) (handler : η) (n : Nat) : Registration η → Nat
  | .registerHandler k h => if k.bytes = key ∧ h = handler then n + 1 else n
  | .unregisterHandler k h => if k.bytes = key ∧ h = handler then n - 1 else n

/-- How often a handler is registered at present. -/
def registrations (key : Bytes) (handler : η) (history : List (Registration η)) : Nat :=
  history.foldl (Registration.counted key handler) 0

end

/-- The calls of the loop with their answers and what they leave, unless one throws. -/
def answers (impl : η → IRequestHandler σ) (sessionId : UInt32) (key : CString) (id : Int32)
    (request : PropertyBag) :
    List η → PropertyBag → σ → Option (List (η × Bool) × PropertyBag × σ)
  | [], response, w => some ([], response, w)
  | handler :: handlers, response, w =>
      match (impl handler).process sessionId key id request response w with
      | (.ok answer, response, w) =>
          (answers impl sessionId key id request handlers response w).map fun rest =>
            ((handler, answer) :: rest.1, rest.2)
      | (.error _, _, _) => none

section

variable (reg : Registry)

/-- A request that is decoded to a table with an id and a command. -/
structure Asks (strtod : Bytes → Option Double) (request name : Bytes)
    (members : List (Bytes × PropertyBag)) (id : Int32) (key : Bytes) : Prop where
  decoded : (propertyBagFromJson reg JsonErrorHandler strtod request []).1 =
    .ok (.table name members)
  id_eq : requestIdOf members = .ok id
  key_eq : commandOf members id = .ok key

variable (strtod : Bytes → Option Double) (impl : η → IRequestHandler σ)

/-- The calls return and are those of the registered handlers.  If one of them returns `true`, the
reply is the text of the response, and otherwise it says that the command is not supported. -/
def Dispatches [DecidableEq η] (history : List (Registration η)) (rp : RequestProcessor η)
    (sessionId : UInt32) (request : Bytes) (length : Nat) (table : PropertyBag) (id : Int32)
    (key : Bytes) (w : σ) : Prop :=
  ∃ calls response w',
    answers impl sessionId (.ofMemory key) id table (rp.equalRange key) (.table [] []) w =
      some (calls, response, w') ∧
    (∀ handler, (calls.map Prod.fst).count handler = registrations key handler history) ∧
    if calls.any Prod.snd then
      ∃ out, propertyBagToJson reg response = .ok out ∧
        process reg strtod impl rp sessionId request length w = (.returned out, w')
    else process reg strtod impl rp sessionId request length w = (unsupported id, w')

/-- No handler throws; and if one returns `true`, the response is encoded, and the last one returns
`true` as well, or it makes no difference for the text of the reply. -/
def LastDecides (rp : RequestProcessor η) (sessionId : UInt32) (table : PropertyBag) (id : Int32)
    (key : Bytes) (w : σ) : Prop :=
  ∃ calls response w',
    answers impl sessionId (.ofMemory key) id table (rp.equalRange key) (.table [] []) w =
      some (calls, response, w') ∧
    (calls.any Prod.snd = true → ∃ out, propertyBagToJson reg response = .ok out ∧
      (calls.getLast?.any Prod.snd = true ∨ .returned out = unsupported id))

end

/-! ## The registered handlers -/

section

variable [DecidableEq η]

theorem count_equalRange (rp : RequestProcessor η) (key : Bytes) (handler : η) :
    (rp.equalRange key).count handler = rp.handlers.count (key, handler) := by
  obtain ⟨entries⟩ := rp
  unfold equalRange
  dsimp only
  induction entries with
  | nil => rfl
  | cons entry entries ih =>
      rw [List.filter_cons, List.count_cons, ← ih]
      by_cases hKey : entry.1 = key
      · simp [hKey, List.count_cons, Prod.ext_iff]
      · simp [hKey, Prod.ext_iff]

/-- After any calls, the entries are the current registrations. -/
theorem After.count_handlers {history : List (Registration η)} {rp : RequestProcessor η}
    (h : After history rp) (key : Bytes) (handler : η) :
    rp.handlers.count (key, handler) = registrations key handler history := by
  induction h with
  | nil => rfl
  | snoc _ hCall ih =>
      rename_i call rp' _
      rw [registrations, List.foldl_append, ← registrations, ← ih]
      have hEntry (k : CString) (h : η) :
          ((k.bytes, h) == (key, handler)) = decide (k.bytes = key ∧ h = handler) := by
        rw [Bool.eq_iff_iff, beq_iff_eq, Prod.mk.injEq, decide_eq_true_iff]
      cases call with
      | registerHandler k h =>
          rw [hCall.count_eq, List.count_cons, hEntry]
          simp only [List.foldl_cons, List.foldl_nil, Registration.counted, decide_eq_true_eq]
          split <;> rfl
      | unregisterHandler k h =>
          rw [hCall, unregisterHandler, List.count_erase, hEntry]
          simp only [List.foldl_cons, List.foldl_nil, Registration.counted, decide_eq_true_eq]
          split <;> rfl

end

/-! ## The loop -/

variable {impl : η → IRequestHandler σ} {sessionId : UInt32} {key : CString} {id : Int32}
  {request : PropertyBag}

/-- The handlers are called once each, in order, and the last answer is kept. -/
theorem callHandlers_of_answers {handlers : List η} :
    ∀ (found : Bool) {response response' : PropertyBag} {w w' : σ} {calls : List (η × Bool)},
      answers impl sessionId key id request handlers response w = some (calls, response', w') →
        calls.map Prod.fst = handlers ∧
          callHandlers impl sessionId key id request handlers response found w =
            (.ok ((calls.getLast?.map Prod.snd).getD found), response', w') := by
  induction handlers with
  | nil =>
      intro found response response' w w' calls h
      cases h
      exact ⟨rfl, rfl⟩
  | cons handler handlers ih =>
      intro found response response' w w' calls h
      rw [answers] at h
      rw [callHandlers]
      rcases hCall : (impl handler).process sessionId key id request response w with
        ⟨what | answer, response₁, w₁⟩
      · rw [hCall] at h
        cases h
      · rw [hCall] at h
        obtain ⟨⟨calls', response'', w''⟩, hRest, hEq⟩ := Option.map_eq_some_iff.mp h
        cases hEq
        obtain ⟨hMap, hLoop⟩ := ih answer hRest
        refine ⟨congrArg (List.cons handler) hMap, hLoop.trans ?_⟩
        cases calls' with
        | nil => rfl
        | cons call calls' =>
            show _ =
              (Except.ok ((Option.map Prod.snd (List.getLast? (_ :: call :: calls'))).getD _), _)
            rw [List.getLast?_cons_cons, List.getLast?_cons]
            rfl

/-- The reply to a request with a key, if no handler throws. -/
theorem process_of_answers {reg : Registry} {strtod : Bytes → Option Double}
    {rp : RequestProcessor η} {text name : Bytes} {members : List (Bytes × PropertyBag)}
    {key : Bytes} (hAsks : Asks reg strtod text name members id key) (length : Nat) {w w' : σ}
    {calls : List (η × Bool)} {response : PropertyBag}
    (h : answers impl sessionId (.ofMemory key) id (.table name members) (rp.equalRange key)
      (.table [] []) w = some (calls, response, w')) :
    process reg strtod impl rp sessionId text length w =
      (if calls.getLast?.any Prod.snd then encoded reg response else unsupported id, w') := by
  have hLoop := (callHandlers_of_answers false h).2
  have hDecoded := hAsks.decoded
  unfold process
  generalize propertyBagFromJson reg JsonErrorHandler strtod text [] = decoding at hDecoded ⊢
  obtain ⟨result, messages⟩ := decoding
  dsimp only at hDecoded
  subst hDecoded
  dsimp only
  unfold processTable
  simp only [hAsks.id_eq, hAsks.key_eq, hLoop]
  have hLast : (calls.getLast?.map Prod.snd).getD false = calls.getLast?.any Prod.snd := by
    cases calls.getLast? <;> rfl
  rw [hLast]
  cases calls.getLast?.any Prod.snd with
  | false => rfl
  | true =>
      dsimp only [encoded]
      rw [if_pos rfl]
      cases propertyBagToJson reg response with
      | ok out => rfl
      | error failure => cases failure <;> rfl

/-- After any registrations, and whatever the order of the handlers, a well-formed request is
dispatched if and only if no handler throws, the last one answers for all, and what they have built
is encoded. -/
theorem dispatches_iff [DecidableEq η] {reg : Registry} {strtod : Bytes → Option Double}
    (impl : η → IRequestHandler σ) {history : List (Registration η)} {rp : RequestProcessor η}
    (hAfter : After history rp) {text name : Bytes} {members : List (Bytes × PropertyBag)}
    {id : Int32} {key : Bytes} (hAsks : Asks reg strtod text name members id key)
    (sessionId : UInt32) (length : Nat) (w : σ) :
    Dispatches reg strtod impl history rp sessionId text length (.table name members) id key w ↔
      LastDecides reg impl rp sessionId (.table name members) id key w := by
  unfold Dispatches LastDecides
  refine exists_congr fun calls => exists_congr fun response => exists_congr fun w' =>
    and_congr_right fun hAnswers => ?_
  have hCounts : ∀ handler,
      (calls.map Prod.fst).count handler = registrations key handler history := by
    intro handler
    rw [(callHandlers_of_answers false hAnswers).1, count_equalRange, hAfter.count_handlers]
  rw [and_iff_right hCounts, process_of_answers hAsks length hAnswers]
  by_cases hAny : calls.any Prod.snd = true
  · rw [if_pos hAny, imp_iff_right hAny]
    refine exists_congr fun out => and_congr_right fun hOut => ?_
    rw [Prod.mk.injEq, and_iff_left rfl]
    by_cases hLast : calls.getLast?.any Prod.snd = true
    · simp [hLast, encoded, hOut]
    · rw [if_neg hLast, or_iff_right hLast, eq_comm]
  · -- without a success the last one is none
    have hLast : calls.getLast?.any Prod.snd = false := by
      rw [Option.any_eq_false]
      intro call hCall
      refine Bool.eq_false_iff.mpr fun hTrue => hAny ?_
      exact List.any_eq_true.mpr ⟨call, List.mem_of_getLast? hCall, hTrue⟩
    rw [if_neg hAny, hLast]
    exact iff_of_true rfl fun h => absurd h hAny

/-- A JSON object with an id and a command is a well-formed request. -/
theorem asks_of_parse {reg : Registry} (hIdRegistered : reg.Registered Request.Id)
    (hCommandRegistered : reg.Registered Request.Command) {strtod : Bytes → Option Double}
    {text : Bytes} {members : List (Bytes × JsonValue)}
    (hParse : parse strtod text = .ok (.object members)) {id : Int32} {key : Bytes}
    (hId : UnorderedMap.find members Request.Id.idstr.bytes = some (.integer (.ofInt32 id)))
    (hKey : UnorderedMap.find members Request.Command.idstr.bytes = some (.string key)) :
    Asks reg strtod text [] (keptMembers reg members []) id key := by
  obtain ⟨messages, -, hAll⟩ := propertyBagFromJson_told reg hParse
  refine ⟨congrArg Prod.fst (hAll []), requestIdOf_kept hIdRegistered hId, ?_⟩
  rw [commandOf_kept hCommandRegistered, hKey]

/-- A handler that leaves the response alone. -/
def answering (answer : Bool) : IRequestHandler Unit where
  process _ _ _ _ response w := (.ok answer, response, w)
  keepsTable _ _ _ _ members _ := ⟨members, rfl⟩

/-- Two handlers of one key. -/
def twoHandlers : List (Registration Bool) :=
  [.registerHandler (literal "go") true, .registerHandler (literal "go") false]

/-- The request for them. -/
def goText : Bytes := (requestOf 5 (.string (ascii "go"))).render

/-- Its members as the decoder leaves them. -/
def goMembers : List (Bytes × PropertyBag) :=
  keptMembers knownRegistry
    (Value.liftMembers [(Request.Id.idstr.bytes, .integer (.ofInt32 5)),
      (Request.Command.idstr.bytes, .string (ascii "go"))]) []

theorem after_twoHandlers {rp : RequestProcessor Bool}
    (h : rp.handlers.Perm [(ascii "go", false), (ascii "go", true)]) : After twoHandlers rp := by
  have hFirst : After [.registerHandler (literal "go") true] ⟨[(ascii "go", true)]⟩ :=
    .snoc .nil (List.Perm.refl _)
  exact .snoc hFirst h

theorem asks_goText :
    Asks knownRegistry (fun _ => none) goText [] goMembers 5 (ascii "go") :=
  asks_of_parse (registered_of_mem (by simp [knownProps]))
    (registered_of_mem (by simp [knownProps])) (parse_render (fun _ => none) (requestOf 5 _)) rfl rfl

theorem dispatches_iff_go :
    Dispatches knownRegistry (fun _ => none) answering twoHandlers
        ⟨[(ascii "go", false), (ascii "go", true)]⟩ 1 goText 0 (.table [] goMembers) 5
        (ascii "go") () ↔
      LastDecides knownRegistry answering ⟨[(ascii "go", false), (ascii "go", true)]⟩ 1
        (.table [] goMembers) 5 (ascii "go") () :=
  dispatches_iff answering (after_twoHandlers (List.Perm.refl _)) asks_goText 1 0 ()

/-- If the handler that succeeds comes first, the command counts as unsupported. -/
theorem success_forgotten :
    After twoHandlers ⟨[(ascii "go", true), (ascii "go", false)]⟩ ∧
      Asks knownRegistry (fun _ => none) goText [] goMembers 5 (ascii "go") ∧
      (process knownRegistry (fun _ => none) answering ⟨[(ascii "go", true), (ascii "go", false)]⟩ 1
        goText 0 ()).1 = unsupported 5 ∧
      (process knownRegistry (fun _ => none) answering ⟨[(ascii "go", false), (ascii "go", true)]⟩ 1
        goText 0 ()).1 = .returned (ascii "\x7b\x7d") ∧
      ¬ Dispatches knownRegistry (fun _ => none) answering twoHandlers
        ⟨[(ascii "go", true), (ascii "go", false)]⟩ 1 goText 0 (.table [] goMembers) 5
        (ascii "go") () := by
  have hReply : (process knownRegistry (fun _ => none) answering
      ⟨[(ascii "go", true), (ascii "go", false)]⟩ 1 goText 0 ()).1 = unsupported 5 := by
    decide +kernel
  refine ⟨after_twoHandlers (List.Perm.swap _ _ _), asks_goText, hReply, by decide +kernel, ?_⟩
  rintro ⟨calls, response, w, hAnswers, -, hDispatched⟩
  cases hAnswers
  obtain ⟨out, hOut, hProcess⟩ := hDispatched
  have hEncoded := (congrArg Prod.fst hProcess).symm.trans hReply
  have hEmpty : propertyBagToJson knownRegistry (.table [] []) = .ok (ascii "\x7b\x7d") := by
    decide +kernel
  cases hEmpty.symm.trans hOut
  exact absurd hEncoded (by decide +kernel)

end Kexplorer.Server.RequestProcessor

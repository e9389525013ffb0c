import Kexplorer.Props.Codec
import Kexplorer.Util.RequestUtil

/-!
# The request processor

`RequestProcessor::process` decodes a request, finds its id and its command,
calls the handlers of the command and encodes the response they built.  Every
`std::exception` on the way is turned into a reply that says what it was.

A handler is a parameter: it is called with the response so far and adds to it,
so that an unnamed table stays one (`keepsTable`).  Log messages are left out.

`process_returns` says that whatever comes back is the text of a JSON object
that the writer wrote.
-/

namespace Kexplorer.Server

open Kexplorer.Json Kexplorer.Props Kexplorer.Util

/-- A handler: session, command, request id, request and response go in, and its answer or the
text of an exception comes out beside the response and the handler's own state. -/
structure IRequestHandler (σ : Type) where
  process : UInt32 → CString → Int32 → PropertyBag → PropertyBag → σ →
    Except Bytes Bool × PropertyBag × σ
  keepsTable : ∀ sessionId key id request members w, ∃ members',
    (process sessionId key id request (.table [] members) w).2.1 = .table [] members'

/-- `m_handlers`, in the order in which an iteration visits it; a handler is known by its
address. -/
structure RequestProcessor (η : Type) where
  handlers : List (Bytes × η)

/-- How a call ends: with a reply, or not at all because an assertion failed or an exception
left a function that is `noexcept`. -/
inductive Reply
  | returned (text : Bytes)
  | terminated
  deriving DecidableEq

namespace RequestProcessor

/-- A text of the writer, with its assertions. -/
def answer (text : Option Bytes) : Reply :=
  match text with
  | some text => .returned text
  | none => .terminated

/-- The `catch` block. -/
def caught (what : Bytes) : Reply := answer (Response.fail 0 (.ofMemory what))

/-- The reply to a command that no handler has taken. -/
def unsupported (id : Int32) : Reply := answer (Response.fail id (literal "Unsupported request"))

/-- The reply with a response table. -/
def encoded (reg : Registry) (response : PropertyBag) : Reply :=
  match propertyBagToJson reg response with
  | .ok out => .returned out
  | .error (.exception what) => caught what
  | .error .assertion => .terminated

/-- `JsonErrorHandler`, which keeps and logs the message. -/
def JsonErrorHandler : IPropertyErrorHandler := ⟨fun _ _ => .Continue⟩

/-- The id of a request, 0 without one.  `property()` on a member that is none terminates. -/
def requestIdOf (members : List (Bytes × PropertyBag)) : Except Reply Int32 :=
  match UnorderedMap.find members Request.Id.idstr.bytes with
  | none => .ok 0
  | some (.property _ prop) =>
      match prop.value with
      | some (.int n) => .ok n
      | _ => .error (caught badAnyCast)
  | some _ => .error .terminated

/-- The command of a request. -/
def commandOf (members : List (Bytes × PropertyBag)) (requestId : Int32) : Except Reply Bytes :=
  match UnorderedMap.find members Request.Command.idstr.bytes with
  | none => .error (answer (Response.fail requestId (literal "Unsupported request")))
  | some (.property _ prop) =>
      match prop.value with
      | some (.string key) => .ok key
      | _ => .error (caught badAnyCast)
  | some _ => .error (answer (Response.fail requestId (literal "Ill-formed request")))

variable {σ η : Type}

/-- The loop over the handlers of a command; each one's answer replaces the one before. -/
def callHandlers (impl : η → IRequestHandler σ) (sessionId : UInt32) (key : CString) (id : Int32)
    (request : PropertyBag) :
    List η → PropertyBag → Bool → σ → Except Bytes Bool × PropertyBag × σ
  | [], response, handlerFound, w => (.ok handlerFound, response, w)
  | handler :: handlers, response, _, w =>
      match (impl handler).process sessionId key id request response w with
      | (.ok handlerFound, response, w) =>
          callHandlers impl sessionId key id request handlers response handlerFound w
      | (.error what, response, w) => (.error what, response, w)

/-- `m_handlers.equal_range(key)`. -/
def equalRange (rp : RequestProcessor η) (key : Bytes) : List η :=
  (rp.handlers.filter fun entry => entry.1 = key).map Prod.snd

section

variable (reg : Registry) (strtod : Bytes → Option Double) (impl : η → IRequestHandler σ)

/-- The part of `process` behind the decoder. -/
def processTable (rp : RequestProcessor η) (sessionId : UInt32) (name : Bytes)
    (members : List (Bytes × PropertyBag)) (w : σ) : Reply × σ :=
  match requestIdOf members with
  | .error reply => (reply, w)
  | .ok requestId =>
      match commandOf members requestId with
      | .error reply => (reply, w)
      | .ok key =>
          match callHandlers impl sessionId (.ofMemory key) requestId (.table name members)
              (rp.equalRange key) (.table [] []) false w with
          | (.error what, _, w) => (caught what, w)
          | (.ok false, _, w) =>
              (answer (Response.fail requestId (literal "Unsupported request")), w)
          | (.ok true, response, w) =>
              match propertyBagToJson reg response with
              | .ok out => (.returned out, w)
              | .error (.exception what) => (caught what, w)
              | .error .assertion => (.terminated, w)

/-- `RequestProcessor::process` of the C string at `request`; the length is not used. -/
def process (rp : RequestProcessor η) (sessionId : UInt32) (request : Bytes) (_length : Nat)
    (w : σ) : Reply × σ :=
  match propertyBagFromJson reg JsonErrorHandler strtod request [] with
  | (.error what, _) => (caught what, w)
  | (.ok (.table name members), _) => processTable reg impl rp sessionId name members w
  | (.ok _, _) => (answer (Response.fail 0 (literal "Not a JSON object")), w)

end

/-! ## What comes back -/

/-- A reply that is the text of an object, if it is one at all. -/
def IsObjectText (reply : Reply) : Prop :=
  ∀ text, reply = .returned text → ∃ members, text = Value.render (.object members)

theorem isObjectText_fail (id : Int32) (reason : CString) :
    IsObjectText (answer (Response.fail id reason)) := by
  intro text h
  rw [Response.fail_eq] at h
  cases h
  exact ⟨_, rfl⟩

theorem isObjectText_terminated : IsObjectText .terminated := by
  intro text h
  cases h

theorem isObjectText_requestIdOf {members : List (Bytes × PropertyBag)} {reply : Reply}
    (h : requestIdOf members = .error reply) : IsObjectText reply := by
  unfold requestIdOf at h
  split at h
  · cases h
  · split at h
    · cases h
    · cases h
      exact isObjectText_fail _ _
  · cases h
    exact isObjectText_terminated

theorem isObjectText_commandOf {members : List (Bytes × PropertyBag)} {requestId : Int32}
    {reply : Reply} (h : commandOf members requestId = .error reply) : IsObjectText reply := by
  unfold commandOf at h
  split at h
  · cases h
    exact isObjectText_fail _ _
  · split at h
    · cases h
    · cases h
      exact isObjectText_fail _ _
  · cases h
    exact isObjectText_fail _ _

/-- The handlers leave an unnamed table. -/
theorem callHandlers_table (impl : η → IRequestHandler σ) (sessionId : UInt32) (key : CString)
    (id : Int32) (request : PropertyBag) (handlers : List η) :
    ∀ (members : List (Bytes × PropertyBag)) (found : Bool) (w : σ), ∃ members',
      (callHandlers impl sessionId key id request handlers (.table [] members) found w).2.1 =
        .table [] members' := by
  induction handlers with
  | nil => exact fun members _ _ => ⟨members, rfl⟩
  | cons handler handlers ih =>
      intro members found w
      obtain ⟨members', hTable⟩ :=
        (impl handler).keepsTable sessionId key id request members w
      rw [callHandlers]
      split <;> rename_i hCall <;> rw [hCall] at hTable <;> dsimp only at hTable <;> subst hTable
      · exact ih members' _ _
      · exact ⟨members', rfl⟩

/-- An encoded unnamed table is the text of an object. -/
theorem isObjectText_encoded {reg : Registry} {members : List (Bytes × PropertyBag)}
    {out : Bytes} (h : propertyBagToJson reg (.table [] members) = .ok out) :
    IsObjectText (.returned out) := by
  intro text hText
  cases hText
  have hWritten : some out = _ :=
    (congrArg Except.toOption h).symm.trans (propertyBagToJson_table members)
  obtain ⟨ms, -, rfl⟩ := Option.map_eq_some_iff.mp hWritten.symm
  exact ⟨ms, rfl⟩

theorem processTable_returns (reg : Registry) (impl : η → IRequestHandler σ)
    (rp : RequestProcessor η) (sessionId : UInt32) (name : Bytes)
    (members : List (Bytes × PropertyBag)) (w : σ) :
    IsObjectText (processTable reg impl rp sessionId name members w).1 := by
  unfold processTable
  split
  · exact isObjectText_requestIdOf (by assumption)
  · rename_i requestId _
    split
    · exact isObjectText_commandOf (by assumption)
    · rename_i key _
      obtain ⟨members', hTable⟩ := callHandlers_table impl sessionId (.ofMemory key) requestId
        (.table name members) (rp.equalRange key) [] false w
      split <;> rename_i hCall
      · exact isObjectText_fail _ _
      · exact isObjectText_fail _ _
      · rw [hCall] at hTable
        dsimp only at hTable
        subst hTable
        split <;> rename_i hOut
        · exact isObjectText_encoded hOut
        · exact isObjectText_fail _ _
        · exact isObjectText_terminated

/-- Whatever the request and the handlers, a reply is the text of an object. -/
theorem process_returns (reg : Registry) (strtod : Bytes → Option Double)
    (impl : η → IRequestHandler σ) (rp : RequestProcessor η) (sessionId : UInt32)
    (request : Bytes) (length : Nat) (w : σ) :
    IsObjectText (process reg strtod impl rp sessionId request length w).1 := by
  unfold process
  split
  · exact isObjectText_fail _ _
  · exact processTable_returns reg impl rp sessionId _ _ w
  · exact isObjectText_fail _ _

end RequestProcessor

end Kexplorer.Server

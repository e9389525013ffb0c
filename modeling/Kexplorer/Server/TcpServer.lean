import Kexplorer.Server.SessionHandler
import Mathlib.Data.List.Basic

/-!
# The TCP server

One thread runs the callbacks of all sockets.  A session is an object at an
address; `m_sessions` and the locals of a running callback own it through shared
pointers, and the handlers of pending operations know its bare address.

An event is the completion of a pending operation or a partial send of a pending
write.  It says how the operation ended and which of the socket's calls throw in
the callback; a callback makes each of these calls once at most.  A step ends
with the next state, with a call of `std::terminate`, or in undefined behaviour.

What the peer has received, which responses were returned and which sessions
were closed is recorded for the statements about runs and read by no callback.
-/

namespace Kexplorer.Server

/-- What the template asks of its `SessionHandler`.  `close` is left out: it is empty. -/
structure SessionHandlerT (η σ : Type) where
  create : UInt32 → σ → η × σ
  destroy : η → σ → σ
  process : η → Bytes → σ → (CallbackResult × Bytes) × η × σ

/-- The session handler of the server; `start` and `finish` are what the request processor's
`startSession` and `endSession` do. -/
def SessionHandler.template {σ : Type} (P : IRequestProcessor σ) (start finish : UInt32 → σ → σ)
    (bufferSize bufferLimit : Nat) : SessionHandlerT SessionHandler σ where
  create id w := (.new bufferSize bufferLimit id, start id w)
  destroy handler w := finish handler.id w
  process handler data w :=
    let o := handler.process P data w
    ((o.result, o.response), o.handler, o.world)

/-- How a callback can end the program. -/
inductive Fault
  | terminated
  | undefined
  deriving DecidableEq

/-- Which calls on the socket throw. -/
structure Calls where
  remoteEndpoint : Bool := false
  asyncReadSome : Bool := false
  asyncWrite : Bool := false
  shutdown : Bool := false
  close : Bool := false
  deriving DecidableEq

/-- What the handler of a pending operation keeps besides the address of its session. -/
inductive Capture
  | self
  | buffer
  deriving DecidableEq

/-- A pending `async_write`: the session, what is left of the string, and the captures of the
handler. -/
structure Write where
  session : Nat
  remaining : Bytes
  captures : List Capture
  deriving DecidableEq

/-- `TcpServer::Session`. -/
structure TcpSession (η : Type) where
  id : UInt32
  sessionHandler : Option η
  isOpen : Bool
  /-- What the peer has received. -/
  sent : Bytes
  /-- What `SessionHandler::process` has returned. -/
  responses : List Bytes

/-- The server and the operations that are pending. -/
structure TcpServer (η σ : Type) where
  /-- All sessions ever created, each at its address. -/
  objects : List (TcpSession η)
  /-- `m_sessions`. -/
  sessions : List Nat
  /-- The shared pointers of the running callback. -/
  locals : List Nat
  /-- The sessions with a pending read. -/
  reads : List Nat
  writes : List Write
  accepting : Bool
  retrying : Bool
  stop : Bool
  nextId : UInt32
  world : σ
  /-- The sessions whose `close` has returned. -/
  closed : List Nat

namespace TcpServer

variable {η σ : Type}

/-- The constructor. -/
def new (nextId : UInt32) (world : σ) : TcpServer η σ where
  objects := []
  sessions := []
  locals := []
  reads := []
  writes := []
  accepting := true
  retrying := false
  stop := false
  nextId := nextId
  world := world
  closed := []

/-- Some shared pointer owns the session. -/
def isOwned (s : TcpServer η σ) (self : Nat) : Bool := self ∈ s.sessions || self ∈ s.locals

/-- Access to a member of a session: undefined once nobody owns it. -/
def member (s : TcpServer η σ) (self : Nat) : Except Fault (TcpSession η) :=
  match s.objects[self]? with
  | some session => if s.isOwned self then .ok session else .error .undefined
  | none => .error .undefined

/-- Change a session in place. -/
def update (s : TcpServer η σ) (self : Nat) (f : TcpSession η → TcpSession η) : TcpServer η σ :=
  { s with objects := s.objects.modify self f }

section

variable (T : SessionHandlerT η σ) (calls : Calls)

/-- A shared pointer to a session is gone; the last one destroys the session. -/
def release (self : Nat) (s : TcpServer η σ) : TcpServer η σ :=
  if s.isOwned self then s
  else
    match s.objects[self]?.bind TcpSession.sessionHandler with
    | some handler => { s with world := T.destroy handler s.world }
    | none => s

/-- The session that `removeSession` finds. -/
def findSession (s : TcpServer η σ) (id : UInt32) : Option Nat :=
  s.sessions.find? fun self => s.objects[self]?.map TcpSession.id = some id

/-- `TcpServer::removeSession`. -/
def removeSession (id : UInt32) (s : TcpServer η σ) : TcpServer η σ :=
  match s.findSession id with
  | some self => release T self { s with sessions := s.sessions.erase self }
  | none => s

/-- `Session::close`, which is `noexcept`. -/
def close (self : Nat) (s : TcpServer η σ) : Except Fault (TcpServer η σ) := do
  let session ← s.member self
  if session.isOpen then
    if calls.shutdown then .error .terminated
    else if calls.close then .error .terminated
    else
      let s := s.update self fun session => { session with isOpen := false }
      return { s with closed := self :: s.closed }
  else
    return { s with closed := self :: s.closed }

/-- `close(); m_owner->removeSession(m_id);`, the end of every failing path. -/
def closeAndRemove (self : Nat) (s : TcpServer η σ) : Except Fault (TcpServer η σ) := do
  let s ← close calls self s
  let session ← s.member self
  return removeSession T session.id s

/-- `Session::read`; the handler captures `[this, buffer]`. -/
def read (self : Nat) (s : TcpServer η σ) : Except Fault (TcpServer η σ) := do
  let _ ← s.member self
  if calls.asyncReadSome then
    closeAndRemove T calls self s
  else
    return { s with reads := s.reads ++ [self] }

/-- `Session::write`; the handler captures `[this]`. -/
def write (self : Nat) (buffer : Bytes) (s : TcpServer η σ) : Except Fault (TcpServer η σ) := do
  let _ ← s.member self
  if calls.asyncWrite then
    closeAndRemove T calls self s
  else
    return { s with writes := s.writes ++ [⟨self, buffer, [.self]⟩] }

/-- What `onRead` does with the bytes received. -/
def processRead (self : Nat) (data : Bytes) (s : TcpServer η σ) :
    Except Fault (TcpServer η σ) := do
  let session ← s.member self
  match session.sessionHandler with
  | none => .error .undefined
  | some handler =>
      match T.process handler data s.world with
      | ((result, response), handler, world) =>
          let s := s.update self fun session =>
            { session with
              sessionHandler := some handler
              responses := session.responses ++ [response] }
          let s := { s with world }
          match result with
          | .Abort => closeAndRemove T calls self s
          | .Continue => write T calls self response s

/-- `Session::onRead`; no bytes stand for an error. -/
def onRead (self : Nat) (data : Option Bytes) (s : TcpServer η σ) :
    Except Fault (TcpServer η σ) := do
  let _ ← s.member self
  match data with
  | none => closeAndRemove T calls self s
  | some data =>
      -- start another read immediately
      let s ← read T calls self s
      processRead T calls self data s

/-- `Session::onWrite`. -/
def onWrite (self : Nat) (ec : Bool) (s : TcpServer η σ) : Except Fault (TcpServer η σ) := do
  let _ ← s.member self
  if ec then closeAndRemove T calls self s else return s

/-- `Session::start`: the id, if the session could be started. -/
def start (self : Nat) (s : TcpServer η σ) : Except Fault (Option UInt32 × TcpServer η σ) := do
  let session ← s.member self
  if calls.remoteEndpoint then
    return (none, s)
  else
    let (handler, world) := T.create session.id s.world
    let s := s.update self fun session => { session with sessionHandler := some handler }
    let s ← read T calls self { s with world }
    let session ← s.member self
    return (some session.id, s)

/-- `std::make_shared<Session>`, into `m_sessions` and a local. -/
def createSession (s : TcpServer η σ) : TcpServer η σ :=
  { s with
    objects := s.objects ++ [⟨s.nextId, none, true, [], []⟩]
    sessions := s.sessions ++ [s.objects.length]
    locals := [s.objects.length]
    nextId := s.nextId + 1 }

/-- `TcpServer::onAccept`. -/
def onAccept (ec : Bool) (s : TcpServer η σ) : Except Fault (TcpServer η σ) := do
  if ec then
    return { s with retrying := true }
  else
    -- continue accepting clients
    let s := { s with accepting := true }
    let session := s.objects.length
    let (id, s) ← start T calls session s.createSession
    match id with
    -- `removeSession(*id)` with an empty `id`
    | none => .error .undefined
    | some _ => return release T session { s with locals := [] }

/-- `TcpServer::~TcpServer`, the loop over the sessions; `throwing` lists those whose socket's
`shutdown` or `close` throws. -/
def closeAll (throwing : List Nat) : List Nat → TcpServer η σ → Except Fault (TcpServer η σ)
  | [], s => .ok s
  | self :: selves, s => do
      let s ← close { shutdown := self ∈ throwing } self s
      closeAll throwing selves s

/-- What can happen. -/
inductive Event
  | accepted (ec : Bool) (calls : Calls)
  | retry
  | received (index : Nat) (data : Option Bytes) (calls : Calls)
  | sent (index : Nat) (bytes : Bytes)
  | wrote (index : Nat) (ec : Bool) (calls : Calls)
  | destroyed (throwing : List Nat)

/-- The bytes can be the next ones of a write: the next ones of its string, or as many of
whatever is in the memory that nobody owns. -/
def Write.canSend (w : Write) (bytes : Bytes) : Bool :=
  if .buffer ∈ w.captures then bytes <+: w.remaining else bytes.length ≤ w.remaining.length

/-- One event.  An event that is not possible changes nothing. -/
def step (s : TcpServer η σ) (event : Event) : Except Fault (TcpServer η σ) :=
  if s.stop then .ok s
  else
    match event with
    | .accepted ec calls =>
        if s.accepting then onAccept T calls ec { s with accepting := false } else .ok s
    | .retry =>
        if s.retrying then .ok { s with retrying := false, accepting := true } else .ok s
    | .received index data calls =>
        match s.reads[index]? with
        | some self => onRead T calls self data { s with reads := s.reads.eraseIdx index }
        | none => .ok s
    | .sent index bytes =>
        match s.writes[index]? with
        | some w =>
            if s.isOwned w.session && Write.canSend w bytes &&
                s.objects[w.session]?.any TcpSession.isOpen then
              let s := s.update w.session fun session =>
                { session with sent := session.sent ++ bytes }
              .ok { s with
                writes := s.writes.set index { w with remaining := w.remaining.drop bytes.length } }
            else .ok s
        | none => .ok s
    | .wrote index ec calls =>
        match s.writes[index]? with
        | some w =>
            -- a composed write succeeds when all is sent
            if ec || w.remaining = [] then
              onWrite T calls w.session ec { s with writes := s.writes.eraseIdx index }
            else .ok s
        | none => .ok s
    | .destroyed throwing => do
        let s ← closeAll throwing s.sessions s
        return { s with stop := true }

end

end TcpServer

end Kexplorer.Server

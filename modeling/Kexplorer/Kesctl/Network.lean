import Kexplorer.Kesctl.Client
import Kexplorer.Server.Framing

/-!
# Clients and the server together

Any number of clients, each with a connection of its own, and the one server at
the other end of all of them.  A connection is a pair of byte streams: what is
written arrives in order, in chunks of any size, until an end fails.  A string that
a session writes is taken to live until it is sent, and the writes of a session are
taken not to overlap; `ResponseStream` says when this is so.  The callbacks of a
session that was removed are taken not to run; `Ownership` says when they do.

An action concerns one connection.  The state of the request processor is shared,
so that the replies of a client depend on what the others ask in between.

`prints_prefix` says what holds in every run: a client prints one text at most,
and it is the beginning of what the processor has replied to this client's
session.  `exchanges` says what a well behaved request comes to: it is dispatched
once, as it was written, and what is printed is the reply.  `completes` says that
without failures it comes to that.
-/

namespace Kexplorer.Kesctl

open Kexplorer.Lib Kexplorer.Util Kexplorer.Props Kexplorer.Server

/-- What a client has in progress: its `async_write`, its `async_read_some`, or nothing. -/
inductive Phase
  | writing
  | reading
  | done
  deriving DecidableEq

/-- A client, its connection, and the session at the other end. -/
structure Peer where
  /-- The text given to `Client::write`. -/
  request : Bytes
  /-- What of it is not sent yet. -/
  unsent : Bytes
  /-- What is on the way to the server. -/
  upstream : Bytes
  handler : SessionHandler
  /-- Whether the session exists. -/
  isOpen : Bool
  /-- What the session has written and the client has not received. -/
  downstream : Bytes
  client : Client
  phase : Phase
  /-- What `processJson` was given. -/
  printed : List Bytes
  /-- The texts that the session has dispatched, and the replies. -/
  answers : List (Bytes × Bytes)

/-- What can happen at a connection. -/
inductive Action
  /-- The client's `async_write` sends some bytes. -/
  | send (size : Nat)
  /-- The client's `async_write` completes. -/
  | wrote
  /-- The session's `async_read_some` completes. -/
  | receive (size : Nat)
  /-- The client's `async_read_some` completes. -/
  | read (size : Nat)
  /-- The session fails, or its peer is gone. -/
  | close
  /-- The client fails, or its peer is gone. -/
  | giveUp

/-- The size of the buffers of both ends. -/
def readSize : Nat := 65536

namespace Peer

/-- `Client::command` of a text, and the session that accepts the connection. -/
def connect (request : Bytes) (id : UInt32) : Peer where
  request := request
  unsent := request
  upstream := []
  handler := .new readSize readSize id
  isOpen := true
  downstream := []
  client := Client.new.reset
  phase := .writing
  printed := []
  answers := []

/-- Whether an action is possible. -/
def possible (p : Peer) : Action → Bool
  | .send size => p.phase = .writing ∧ 0 < size ∧ p.unsent ≠ []
  | .wrote => p.phase = .writing ∧ p.unsent = []
  | .receive size => p.isOpen = true ∧ 0 < size ∧ size ≤ readSize ∧ p.upstream ≠ []
  | .read size => p.phase = .reading ∧ 0 < size ∧ size ≤ readSize ∧ p.downstream ≠ []
  | .close => p.isOpen
  | .giveUp => p.phase ≠ .done

section

variable {σ : Type} (P : IRequestProcessor σ) (finish : UInt32 → σ → σ)

/-- `Session::onRead` of a chunk; its responses are sent whole, one behind the other. -/
def onRead (p : Peer) (data : Bytes) (w : σ) : Peer × σ :=
  let o := p.handler.process P data w
  match o.result with
  | .Abort => ({ p with handler := o.handler, isOpen := false }, finish p.handler.id o.world)
  | .Continue =>
      ({ p with
          handler := o.handler
          downstream := p.downstream ++ o.response
          answers := p.answers ++ (o.text?.map fun text => (text, o.response)).toList },
        o.world)

/-- `Client::onRead` of a chunk. -/
def onReply (p : Peer) (data : Bytes) : Peer :=
  let o := p.client.process data
  { p with
    client := o.client
    phase := if o.result then .done else .reading
    printed := p.printed ++ o.processed.toList }

/-- A possible action. -/
def act (p : Peer) (w : σ) : Action → Peer × σ
  | .send size =>
      ({ p with unsent := p.unsent.drop size, upstream := p.upstream ++ p.unsent.take size }, w)
  | .wrote => ({ p with phase := .reading }, w)
  | .receive size =>
      onRead P finish { p with upstream := p.upstream.drop size } (p.upstream.take size) w
  | .read size =>
      (onReply { p with downstream := p.downstream.drop size } (p.downstream.take size), w)
  | .close => ({ p with isOpen := false }, finish p.handler.id w)
  | .giveUp => ({ p with phase := .done }, w)

end

/-! ## One call -/

section

variable {σ : Type} {P : IRequestProcessor σ} {finish : UInt32 → σ → σ}

/-- The three ways in which a session takes a chunk, by the framer's verdict. -/
theorem onRead_cases {p : Peer} {pending : Bytes}
    (hHolds : SessionHandler.Holds readSize pending p.handler) (data : Bytes) (w : σ) :
    ((Receiver.framer readSize).verdict pending data = .wait ∧
        ∃ handler, handler.id = p.handler.id ∧
          SessionHandler.Holds readSize (pending ++ data) handler ∧
          onRead P finish p data w = ({ p with handler }, w)) ∨
      ((Receiver.framer readSize).verdict pending data = .complete (pending ++ data) ∧
        ∃ handler memory reply w', handler.id = p.handler.id ∧
          SessionHandler.Holds readSize [] handler ∧
          memory.take (pending ++ data).length = pending ++ data ∧
          ((pending ++ data).length < readSize →
            memory.take ((pending ++ data).length + 1) = pending ++ data ++ [0]) ∧
          P.process p.handler.id memory (pending ++ data).length w = (.ok reply, w') ∧
          onRead P finish p data w =
            ({ p with
                handler
                downstream := p.downstream ++ reply
                answers := p.answers ++ [(pending ++ data, reply)] }, w')) ∨
      ((Receiver.framer readSize).verdict pending data = .reject ∧
        ∃ handler, handler.id = p.handler.id ∧ onRead P finish p data w =
          ({ p with handler, isOpen := false }, finish p.handler.id w)) := by
  have hSpec := SessionHandler.process_spec (P := P) hHolds data w
  obtain ⟨hTracked, rfl, hRoom⟩ := hHolds
  have hReceived := Receiver.receive_spec hTracked data
  rw [hRoom] at hReceived
  unfold onRead
  rw [SessionHandler.process] at hSpec ⊢
  rcases hr : p.handler.receiver.receive data with ⟨what, r⟩ | r | ⟨r, length⟩ <;>
    rw [hr] at hReceived hSpec <;> dsimp only at hSpec ⊢
  · exact .inr (.inr ⟨hReceived.1, ⟨p.handler.id, r.reset⟩, rfl, rfl⟩)
  · obtain ⟨hVerdict, -⟩ := hReceived
    rw [hVerdict] at hSpec
    refine .inl ⟨hVerdict, ⟨p.handler.id, r⟩, rfl, hSpec.holds, ?_⟩
    simp [Outcome.text?]
  · obtain ⟨hVerdict, -, hLength, hText, -, hTerminator, -⟩ := hReceived
    obtain ⟨reply, hReply⟩ := P.returns p.handler.id r.buffer.data length w
    rcases hP : P.process p.handler.id r.buffer.data length w with ⟨what | reply', w'⟩
    · rw [hP] at hReply
      cases hReply
    · rw [hVerdict, hP] at hSpec
      subst hLength
      refine .inr (.inl ⟨hVerdict, ⟨p.handler.id, r.consume _⟩, r.buffer.data, reply', w', rfl,
        hSpec.holds, hText, fun hLess => ?_, hP, ?_⟩)
      · have hPrefix := r.buffer.contents_prefix_data
        rw [hTerminator hLess, List.prefix_iff_eq_take, List.length_append] at hPrefix
        exact hPrefix.symm
      simp only [Outcome.text?, Option.map_some, hText, Option.toList_some]

/-- The three ways in which the client takes a chunk. -/
theorem onReply_cases {p : Peer} {got : Bytes}
    (hHolds : Client.Holds Client.bufferLimit got p.client)
    (data : Bytes) :
    ((Receiver.framer Client.bufferLimit).verdict got data = .wait ∧
        ∃ client, Client.Holds Client.bufferLimit (got ++ data) client ∧
          onReply p data = { p with client, phase := .reading }) ∨
      ((Receiver.framer Client.bufferLimit).verdict got data = .complete (got ++ data) ∧
        ∃ client, onReply p data =
          { p with client, phase := .done, printed := p.printed ++ [got ++ data] }) ∨
      ((Receiver.framer Client.bufferLimit).verdict got data = .reject ∧
        ∃ client, onReply p data = { p with client, phase := .done }) := by
  obtain ⟨hSeen, hKeep⟩ := Client.process_spec hHolds data
  obtain ⟨hResult, hProcessed⟩ := Prod.mk.inj hSeen
  unfold onReply
  dsimp only
  rw [hResult, hProcessed]
  cases hVerdict : (Receiver.framer Client.bufferLimit).verdict got data with
  | wait => exact .inl ⟨rfl, _, hKeep hVerdict, by simp⟩
  | complete text =>
      obtain ⟨-, -, -, rfl⟩ := Framer.verdict_eq_complete_iff.mp hVerdict
      exact .inr (.inl ⟨rfl, _, rfl⟩)
  | reject => exact .inr (.inr ⟨rfl, (p.client.process data).client, by simp⟩)

variable (P finish) in
/-- No action changes what the client was asked to write. -/
theorem request_act (p : Peer) (w : σ) (action : Action) :
    (p.act P finish w action).1.request = p.request := by
  cases action with
  | receive size =>
      unfold act onRead
      dsimp only
      split <;> rfl
  | _ => rfl

/-! ## What every action keeps -/

/-- The texts dispatched from a session. -/
def dispatched (p : Peer) : List Bytes := p.answers.map Prod.fst

/-- The replies to them. -/
def replies (p : Peer) : List Bytes := p.answers.map Prod.snd

/-- The session has dispatched the request piece by piece, each with the processor's reply, and
while it exists it holds what it has received of the next piece. -/
structure Served (P : IRequestProcessor σ) (p : Peer) : Prop where
  answered : ∀ answer ∈ p.answers, ∃ memory w w', memory.take answer.1.length = answer.1 ∧
    P.process p.handler.id memory answer.1.length w = (.ok answer.2, w')
  dispatched : p.dispatched.flatten <+: p.request
  holds : p.isOpen = true → ∃ pending, SessionHandler.Holds readSize pending p.handler ∧
    p.dispatched.flatten ++ pending ++ p.upstream ++ p.unsent = p.request

/-- The client has printed one text at most, the beginning of the replies, and until then it holds
what it has received of them. -/
structure Shown (p : Peer) : Prop where
  once : p.printed.length ≤ 1
  printed : ∀ text ∈ p.printed, text <+: p.replies.flatten
  holds : p.phase ≠ .done → p.printed = [] ∧
    ∃ got, Client.Holds Client.bufferLimit got p.client ∧ got ++ p.downstream = p.replies.flatten

theorem Served.connect (request : Bytes) (id : UInt32) : Served P (Peer.connect request id) where
  answered := List.forall_mem_nil _
  dispatched := List.nil_prefix
  holds _ := ⟨[], SessionHandler.holds_new readSize readSize id, rfl⟩

theorem Shown.connect (request : Bytes) (id : UInt32) : Shown (Peer.connect request id) where
  once := Nat.zero_le _
  printed := List.forall_mem_nil _
  holds _ := ⟨rfl, [], Client.Reachable.new.holds_reset, rfl⟩

/-- A chunk that the session takes comes off the stream, and goes to the request processor or
stays. -/
theorem Served.receive {p : Peer} (h : Served P p) (hOpen : p.isOpen = true) (size : Nat) (w : σ) :
    Served P (p.act P finish w (.receive size)).1 := by
  obtain ⟨pending, hHolds, hRest⟩ := h.holds hOpen
  have hStream : p.dispatched.flatten ++ (pending ++ p.upstream.take size) ++
      p.upstream.drop size ++ p.unsent = p.request := by
    simpa using hRest
  unfold act
  dsimp only
  rcases @onRead_cases σ P finish { p with upstream := p.upstream.drop size } pending hHolds
    (p.upstream.take size) w with ⟨-, handler, hId, hHolds', hEq⟩ |
      ⟨-, handler, memory, reply, w', hId, hHolds', hMemory, -, hReply, hEq⟩ |
      ⟨-, handler, hId, hEq⟩ <;>
        rw [hEq]
  · exact ⟨hId ▸ h.answered, h.dispatched, fun _ => ⟨_, hHolds', hStream⟩⟩
  · have hAll : ((p.answers ++ [(pending ++ p.upstream.take size, reply)]).map Prod.fst).flatten =
        p.dispatched.flatten ++ (pending ++ p.upstream.take size) := by
      simp [Peer.dispatched]
    refine ⟨fun answer hAnswer => ?_, ?_, fun _ => ⟨[], hHolds', ?_⟩⟩
    · rcases List.mem_append.mp hAnswer with hAnswer | hAnswer
      · exact hId ▸ h.answered answer hAnswer
      · rw [List.mem_singleton.mp hAnswer]
        exact ⟨memory, w, w', hMemory, hId ▸ hReply⟩
    · refine ⟨p.upstream.drop size ++ p.unsent, ?_⟩
      rw [Peer.dispatched, hAll, ← List.append_assoc]
      exact hStream
    · rw [Peer.dispatched, hAll, List.append_nil]
      exact hStream
  · exact ⟨hId ▸ h.answered, h.dispatched, fun hClosed => Bool.noConfusion hClosed⟩

theorem Served.act {p : Peer} (h : Served P p) {action : Action}
    (hPossible : p.possible action = true) (w : σ) : Served P (p.act P finish w action).1 := by
  cases action with
  | receive size =>
      simp only [possible, decide_eq_true_eq] at hPossible
      exact h.receive hPossible.1 size w
  | send size =>
      refine ⟨h.answered, h.dispatched, fun hOpen => ?_⟩
      obtain ⟨pending, hHolds, hRest⟩ := h.holds hOpen
      refine ⟨pending, hHolds, hRest ▸ ?_⟩
      simp [Peer.act, Peer.dispatched]
  | wrote => exact ⟨h.answered, h.dispatched, h.holds⟩
  | close => exact ⟨h.answered, h.dispatched, fun hOpen => Bool.noConfusion hOpen⟩
  | giveUp => exact ⟨h.answered, h.dispatched, h.holds⟩
  | read size =>
      unfold Peer.act onReply
      exact ⟨h.answered, h.dispatched, h.holds⟩

/-- Replies that come later leave what was shown the beginning of them. -/
theorem Shown.answered {p : Peer} (h : Shown p) (handler : SessionHandler) (text reply : Bytes) :
    Shown { p with
      handler
      downstream := p.downstream ++ reply
      answers := p.answers ++ [(text, reply)] } := by
  have hAll :
      ((p.answers ++ [(text, reply)]).map Prod.snd).flatten = p.replies.flatten ++ reply := by
    simp [Peer.replies]
  refine ⟨h.once, fun shown hShown => ?_, fun hPhase => ?_⟩
  · rw [Peer.replies, hAll]
    exact (h.printed shown hShown).trans (List.prefix_append _ _)
  · obtain ⟨hNone, got, hHolds, hRest⟩ := h.holds hPhase
    refine ⟨hNone, got, hHolds, ?_⟩
    rw [Peer.replies, hAll, ← hRest, List.append_assoc]

/-- A chunk that the client takes completes a text, stays, or is the last one. -/
theorem Shown.read {p : Peer} (h : Shown p) (hPhase : p.phase ≠ .done) (size : Nat) :
    Shown (onReply { p with downstream := p.downstream.drop size } (p.downstream.take size)) := by
  obtain ⟨hNone, got, hHolds, hRest⟩ := h.holds hPhase
  have hStream : got ++ p.downstream.take size ++ p.downstream.drop size = p.replies.flatten := by
    simpa using hRest
  rcases @onReply_cases { p with downstream := p.downstream.drop size } got hHolds
    (p.downstream.take size) with
      ⟨-, client, hHolds', hEq⟩ | ⟨-, client, hEq⟩ | ⟨-, client, hEq⟩ <;>
      rw [hEq]
  · exact ⟨h.once, h.printed, fun _ => ⟨hNone, _, hHolds', hStream⟩⟩
  · refine ⟨by simp [hNone], fun text hText => ?_, fun hNot => absurd rfl hNot⟩
    rw [hNone, List.nil_append, List.mem_singleton] at hText
    exact ⟨_, hText ▸ hStream⟩
  · exact ⟨h.once, h.printed, fun hNot => absurd rfl hNot⟩

theorem Shown.act {p : Peer} (h : Shown p) (hServed : Served P p) {action : Action}
    (hPossible : p.possible action = true) (w : σ) : Shown (p.act P finish w action).1 := by
  cases action with
  | receive size =>
      simp only [possible, decide_eq_true_eq] at hPossible
      obtain ⟨pending, hHolds, -⟩ := hServed.holds hPossible.1
      unfold Peer.act
      dsimp only
      rcases @onRead_cases σ P finish { p with upstream := p.upstream.drop size } pending hHolds
        (p.upstream.take size) w with ⟨-, handler, -, -, hEq⟩ |
          ⟨-, handler, memory, reply, w', -, -, -, -, -, hEq⟩ | ⟨-, handler, -, hEq⟩ <;> rw [hEq]
      · exact ⟨h.once, h.printed, h.holds⟩
      · have hSame : Shown { p with upstream := p.upstream.drop size } :=
          ⟨h.once, h.printed, h.holds⟩
        exact hSame.answered handler _ reply
      · exact ⟨h.once, h.printed, h.holds⟩
  | read size =>
      simp only [possible, decide_eq_true_eq] at hPossible
      exact h.read (by simp [hPossible.1]) size
  | send size => exact ⟨h.once, h.printed, h.holds⟩
  | wrote =>
      simp only [possible, decide_eq_true_eq] at hPossible
      exact ⟨h.once, h.printed, fun _ => h.holds (by simp [hPossible.1])⟩
  | close => exact ⟨h.once, h.printed, h.holds⟩
  | giveUp => exact ⟨h.once, h.printed, fun hNot => absurd rfl hNot⟩

/-! ## A well behaved request -/

/-- What was replied stays right. -/
def Stays (R : Bytes → Bytes → σ → Prop) (w w' : σ) : Prop :=
  ∀ request reply, R request reply w → R request reply w'

/-- What a processor keeps of its state: `V` of all of it, `W` for every session that exists, and
`R` for every reply. -/
structure Keeps (start finish : UInt32 → σ → σ) (V : σ → Prop) (W : UInt32 → σ → Prop)
    (R : Bytes → Bytes → σ → Prop) : Prop where
  start : ∀ id w, V w → V (start id w) ∧ W id (start id w) ∧
    (∀ other, W other w → W other (start id w)) ∧ Stays R w (start id w)
  finish : ∀ id w, V w → V (finish id w) ∧
    (∀ other, other ≠ id → W other w → W other (finish id w)) ∧ Stays R w (finish id w)

/-- The request ends where its braces are closed first and leaves room for its terminator, and the
replies to it end in the same way and are as they are to be, as long as the processor's state is
kept. -/
structure WellBehaved (P : IRequestProcessor σ) (V : σ → Prop) (W : UInt32 → σ → Prop)
    (R : Bytes → Bytes → σ → Prop) (request : Bytes) : Prop where
  enclosed : braces.Enclosed request
  fits : request.length < readSize
  replies : ∀ sessionId memory w reply w', V w → W sessionId w →
    memory.take (request.length + 1) = request ++ [0] →
      P.process sessionId memory request.length w = (.ok reply, w') →
        braces.Enclosed reply ∧ reply.length ≤ Client.bufferLimit ∧ R request reply w' ∧ V w' ∧
          (∀ other, W other w → W other w') ∧ Stays R w w'

/-- The request is not dispatched and is held as far as it was received, or it was dispatched as a
whole and nothing is left of it. -/
structure Asked (R : Bytes → Bytes → σ → Prop) (p : Peer) (w : σ) : Prop where
  waiting : p.answers = [] → p.isOpen = true →
    ∃ pending, SessionHandler.Holds readSize pending p.handler ∧
      pending ++ p.upstream ++ p.unsent = p.request ∧ pending ≠ p.request
  answered : p.answers ≠ [] → p.upstream = [] ∧ p.unsent = [] ∧
    ∃ reply, p.answers = [(p.request, reply)] ∧ braces.Enclosed reply ∧
      reply.length ≤ Client.bufferLimit ∧ R p.request reply w

/-- The client has received a part of the reply that is not all of it, or is done; then it has
printed the reply, if it has printed anything. -/
structure Told (p : Peer) : Prop where
  waiting : p.phase ≠ .done → p.printed = [] ∧
    ∃ got, Client.Holds Client.bufferLimit got p.client ∧ got ++ p.downstream = p.replies.flatten ∧
      (p.answers ≠ [] → got ≠ p.replies.flatten)
  printed : p.printed = [] ∨ p.printed = p.replies ∧ p.answers ≠ []

variable {V : σ → Prop} {W : UInt32 → σ → Prop} {R : Bytes → Bytes → σ → Prop}

theorem Asked.connect {request : Bytes} (h : WellBehaved P V W R request) (id : UInt32) (w : σ) :
    Asked R (Peer.connect request id) w where
  waiting _ _ := ⟨[], SessionHandler.holds_new readSize readSize id, rfl, h.enclosed.ne_nil.symm⟩
  answered hNot := absurd rfl hNot

theorem Asked.stays {p : Peer} {w w' : σ} (h : Asked R p w) (hStays : Stays R w w') :
    Asked R p w' where
  waiting := h.waiting
  answered hSome := by
    obtain ⟨hUpstream, hUnsent, reply, hAnswers, hEnclosed, hFits, hAnswer⟩ := h.answered hSome
    exact ⟨hUpstream, hUnsent, reply, hAnswers, hEnclosed, hFits, hStays _ _ hAnswer⟩

theorem Told.connect (request : Bytes) (id : UInt32) : Told (Peer.connect request id) where
  waiting _ := ⟨rfl, [], Client.Reachable.new.holds_reset, rfl, fun hNot => absurd rfl hNot⟩
  printed := .inl rfl

/-- A chunk of a well behaved request stays with the session, or it is the last one and is
answered. -/
theorem Asked.receive_cases {p : Peer} {w : σ} (hBehaved : WellBehaved P V W R p.request)
    (h : Asked R p w) {size : Nat} (hPossible : p.possible (.receive size) = true) (hV : V w)
    (hW : W p.handler.id w) :
    (∃ handler pending, handler.id = p.handler.id ∧ SessionHandler.Holds readSize pending handler ∧
        pending ++ p.upstream.drop size ++ p.unsent = p.request ∧ pending ≠ p.request ∧
        p.answers = [] ∧ p.act P finish w (.receive size) =
          ({ p with upstream := p.upstream.drop size, handler }, w)) ∨
      ∃ handler reply w', handler.id = p.handler.id ∧ p.answers = [] ∧ p.unsent = [] ∧
        braces.Enclosed reply ∧ reply.length ≤ Client.bufferLimit ∧ R p.request reply w' ∧ V w' ∧
        (∀ other, W other w → W other w') ∧ Stays R w w' ∧
        p.act P finish w (.receive size) =
          ({ p with
              upstream := []
              handler
              downstream := p.downstream ++ reply
              answers := [(p.request, reply)] }, w') := by
  simp only [possible, decide_eq_true_eq] at hPossible
  obtain ⟨hOpen, hSize, -, hUpstream⟩ := hPossible
  have hNone : p.answers = [] := by
    by_contra hSome
    exact hUpstream (h.answered hSome).1
  obtain ⟨pending, hHolds, hRest, -⟩ := h.waiting hNone hOpen
  have hStream : pending ++ p.upstream.take size ++ (p.upstream.drop size ++ p.unsent) =
      p.request := by
    rw [List.append_assoc, ← List.append_assoc (p.upstream.take size), List.take_append_drop,
      ← List.append_assoc]
    exact hRest
  have hChunk : p.upstream.take size ≠ [] := by
    simp [hUpstream, Nat.ne_of_gt hSize]
  have hPrefix : pending ++ p.upstream.take size <+: p.request := ⟨_, hStream⟩
  have hCases := @onRead_cases σ P finish { p with upstream := p.upstream.drop size } pending hHolds
    (p.upstream.take size) w
  by_cases hAll : pending ++ p.upstream.take size = p.request
  · rw [Framer.verdict_of_end hBehaved.enclosed (Nat.le_of_lt hBehaved.fits) hAll hChunk, hAll]
      at hCases
    rcases hCases with ⟨hNot, -⟩ |
      ⟨-, handler, memory, reply, w', hId, -, -, hMemory, hReply, hEq⟩ | ⟨hNot, -⟩
    · cases hNot
    · obtain ⟨hEnclosed, hFits, hAnswer, hV', hW', hStays⟩ :=
        hBehaved.replies _ _ _ _ _ hV hW (hMemory hBehaved.fits) hReply
      rw [hAll] at hStream
      obtain ⟨hDrop, hUnsent⟩ := List.append_eq_nil_iff.mp (List.append_right_eq_self.mp hStream)
      refine .inr ⟨handler, reply, w', hId, hNone, hUnsent, hEnclosed, hFits, hAnswer, hV', hW',
        hStays, hEq.trans ?_⟩
      rw [hDrop, hNone, List.nil_append]
    · cases hNot
  · rw [Framer.verdict_of_proper hBehaved.enclosed (Nat.le_of_lt hBehaved.fits) hPrefix
      hAll] at hCases
    rcases hCases with ⟨-, handler, hId, hHolds', hEq⟩ | ⟨hNot, -⟩ | ⟨hNot, -⟩
    · refine .inl ⟨handler, _, hId, hHolds', ?_, hAll, hNone, hEq⟩
      rw [List.append_assoc]
      exact hStream
    · cases hNot
    · cases hNot

/-- A session that exists is known to the processor. -/
def Live (W : UInt32 → σ → Prop) (p : Peer) (w : σ) : Prop := p.isOpen = true → W p.handler.id w

/-- What an action at one connection keeps, there and for the other sessions. -/
theorem Asked.act {start : UInt32 → σ → σ} (hKeeps : Keeps start finish V W R) {p : Peer} {w : σ}
    (hBehaved : WellBehaved P V W R p.request) (h : Asked R p w) {action : Action}
    (hPossible : p.possible action = true) (hV : V w) (hW : p.Live W w) :
    Asked R (p.act P finish w action).1 (p.act P finish w action).2 ∧
      V (p.act P finish w action).2 ∧
      (p.act P finish w action).1.Live W (p.act P finish w action).2 ∧
      (p.act P finish w action).1.handler.id = p.handler.id ∧
      (∀ other, other ≠ p.handler.id → W other w → W other (p.act P finish w action).2) ∧
      Stays R w (p.act P finish w action).2 := by
  cases action with
  | receive size =>
      have hOpen : p.isOpen = true := by
        simp only [possible, decide_eq_true_eq] at hPossible
        exact hPossible.1
      rcases @receive_cases σ P finish V W R p w hBehaved h size hPossible hV (hW hOpen) with
        ⟨handler, pending, hId, hHolds, hRest, hNot, hNone, hEq⟩ |
          ⟨handler, reply, w', hId, -, hUnsent, hEnclosed, hFits, hAnswer, hV', hW', hStays,
            hEq⟩ <;>
            rw [hEq]
      · exact ⟨⟨fun _ _ => ⟨pending, hHolds, hRest, hNot⟩, fun hSome => absurd hNone hSome⟩, hV,
          fun _ => hId ▸ hW hOpen, hId, fun _ _ hOther => hOther, fun _ _ h => h⟩
      · exact ⟨⟨fun hNone => absurd hNone (List.cons_ne_nil _ _), fun _ =>
          ⟨rfl, hUnsent, reply, rfl, hEnclosed, hFits, hAnswer⟩⟩, hV',
          fun _ => hW' _ (hId ▸ hW hOpen), hId, fun other _ => hW' other, hStays⟩
  | send size =>
      simp only [possible, decide_eq_true_eq] at hPossible
      refine ⟨⟨fun hNone hOpen => ?_, fun hSome => ?_⟩, hV, hW, rfl, fun _ _ hOther => hOther,
        fun _ _ h => h⟩
      · obtain ⟨pending, hHolds, hRest, hNot⟩ := h.waiting hNone hOpen
        refine ⟨pending, hHolds, hRest ▸ ?_, hNot⟩
        simp [Peer.act]
      · exact absurd (h.answered hSome).2.1 hPossible.2.2
  | wrote => exact ⟨⟨h.waiting, h.answered⟩, hV, hW, rfl, fun _ _ hOther => hOther, fun _ _ h => h⟩
  | close =>
      obtain ⟨hV', hOthers, hStays⟩ := hKeeps.finish p.handler.id w hV
      exact ⟨⟨fun _ hOpen => Bool.noConfusion hOpen, (h.stays hStays).answered⟩, hV',
        fun hOpen => Bool.noConfusion hOpen, rfl, hOthers, hStays⟩
  | giveUp => exact ⟨⟨h.waiting, h.answered⟩, hV, hW, rfl, fun _ _ hOther => hOther, fun _ _ h => h⟩
  | read size =>
      unfold Peer.act onReply
      exact ⟨⟨h.waiting, h.answered⟩, hV, hW, rfl, fun _ _ hOther => hOther, fun _ _ h => h⟩

/-- With a reply that is enclosed, a chunk completes it or stays with the client. -/
theorem Told.read_cases {p : Peer} {w : σ} (hAsked : Asked R p w) (h : Told p) {size : Nat}
    (hPossible : p.possible (.read size) = true) :
    (∃ client got, Client.Holds Client.bufferLimit got client ∧
        got ++ p.downstream.drop size = p.replies.flatten ∧ got ≠ p.replies.flatten ∧
        onReply { p with downstream := p.downstream.drop size } (p.downstream.take size) =
          { p with downstream := p.downstream.drop size, client, phase := .reading }) ∨
      ∃ client, p.answers ≠ [] ∧
        onReply { p with downstream := p.downstream.drop size } (p.downstream.take size) =
          { p with
            downstream := p.downstream.drop size
            client
            phase := .done
            printed := p.replies } := by
  simp only [possible, decide_eq_true_eq] at hPossible
  obtain ⟨hPhase, hSize, -, hDownstream⟩ := hPossible
  obtain ⟨hNone, got, hHolds, hRest, -⟩ := h.waiting (by simp [hPhase])
  have hSome : p.answers ≠ [] := by
    intro hNil
    rw [replies, hNil, List.map_nil, List.flatten_nil] at hRest
    exact hDownstream (List.append_eq_nil_iff.mp hRest).2
  obtain ⟨-, -, reply, hAnswers, hEnclosed, hFits, -⟩ := hAsked.answered hSome
  have hReply : p.replies = [reply] := by
    rw [replies, hAnswers]
    rfl
  have hStream : got ++ p.downstream.take size ++ p.downstream.drop size = reply := by
    rw [List.append_assoc, List.take_append_drop, hRest, hReply, List.flatten_singleton]
  have hChunk : p.downstream.take size ≠ [] := by
    simp [hDownstream, Nat.ne_of_gt hSize]
  have hPrefix : got ++ p.downstream.take size <+: reply := ⟨_, hStream⟩
  have hCases := @onReply_cases { p with downstream := p.downstream.drop size } got hHolds
    (p.downstream.take size)
  rw [hReply, List.flatten_singleton]
  by_cases hAll : got ++ p.downstream.take size = reply
  · rw [Framer.verdict_of_end hEnclosed hFits hAll hChunk, hAll] at hCases
    rcases hCases with ⟨hNot, -⟩ | ⟨-, client, hEq⟩ | ⟨hNot, -⟩
    · cases hNot
    · refine .inr ⟨client, hSome, hEq.trans ?_⟩
      rw [hNone, List.nil_append]
    · cases hNot
  · rw [Framer.verdict_of_proper hEnclosed hFits hPrefix hAll] at hCases
    rcases hCases with ⟨-, client, hHolds', hEq⟩ | ⟨hNot, -⟩ | ⟨hNot, -⟩
    · exact .inl ⟨client, _, hHolds', hStream, hAll, hEq⟩
    · cases hNot
    · cases hNot

theorem Told.act {p : Peer} {w : σ} (hBehaved : WellBehaved P V W R p.request)
    (hAsked : Asked R p w) (h : Told p) {action : Action} (hPossible : p.possible action = true)
    (hV : V w) (hW : p.Live W w) : Told (p.act P finish w action).1 := by
  cases action with
  | receive size =>
      have hOpen : p.isOpen = true := by
        simp only [possible, decide_eq_true_eq] at hPossible
        exact hPossible.1
      rcases @Asked.receive_cases σ P finish V W R p w hBehaved hAsked size hPossible hV (hW hOpen)
        with ⟨handler, pending, -, -, -, -, -, hEq⟩ |
          ⟨handler, reply, w', -, hNone, -, hEnclosed, -, -, -, -, -, hEq⟩ <;> rw [hEq]
      · exact ⟨h.waiting, h.printed⟩
      · refine ⟨fun hPhase => ?_, ?_⟩
        · obtain ⟨hPrinted, got, hHolds, hRest, -⟩ := h.waiting hPhase
          rw [replies, hNone] at hRest
          obtain ⟨rfl, hDownstream⟩ := List.append_eq_nil_iff.mp hRest
          refine ⟨hPrinted, [], hHolds, ?_, fun _ => ?_⟩
          · simp [replies, hDownstream]
          · simpa [replies] using hEnclosed.ne_nil.symm
        · exact .inl (h.printed.resolve_right fun hPrinted => hPrinted.2 hNone)
  | read size =>
      rcases h.read_cases hAsked hPossible with ⟨client, got, hHolds, hRest, hNot, hEq⟩ |
        ⟨client, hSome, hEq⟩
      · simp only [possible, decide_eq_true_eq] at hPossible
        have hPrinted := (h.waiting (by simp [hPossible.1])).1
        unfold Peer.act
        dsimp only
        rw [hEq]
        exact ⟨fun _ => ⟨hPrinted, got, hHolds, hRest, fun _ => hNot⟩, h.printed⟩
      · unfold Peer.act
        dsimp only
        rw [hEq]
        exact ⟨fun hNot => absurd rfl hNot, .inr ⟨rfl, hSome⟩⟩
  | send size => exact ⟨h.waiting, h.printed⟩
  | wrote =>
      simp only [possible, decide_eq_true_eq] at hPossible
      exact ⟨fun _ => h.waiting (by simp [hPossible.1]), h.printed⟩
  | close => exact ⟨h.waiting, h.printed⟩
  | giveUp => exact ⟨fun hNot => absurd rfl hNot, h.printed⟩

/-! ## Progress -/

/-- Neither end has failed: the session exists, and a client that is done has printed. -/
structure Sound (p : Peer) : Prop where
  isOpen : p.isOpen = true
  sent : p.phase ≠ .writing → p.unsent = []
  shown : p.phase = .done → p.printed ≠ []

theorem Sound.connect (request : Bytes) (id : UInt32) : Sound (Peer.connect request id) where
  isOpen := rfl
  sent hNot := absurd rfl hNot
  shown hDone := Phase.noConfusion hDone

/-- How many actions a connection can have before it, at most. -/
def work (p : Peer) : Nat :=
  3 * p.unsent.length + 2 * p.upstream.length + p.downstream.length +
    (match p.phase with
      | .writing => 2
      | .reading => 1
      | .done => 0) +
    bif p.answers.isEmpty then Client.bufferLimit + 1 else 0

/-- An action that is no failure keeps both ends going and is one of those that were left. -/
theorem Sound.act {p : Peer} {w : σ} (hBehaved : WellBehaved P V W R p.request)
    (hAsked : Asked R p w) (hTold : Told p) (h : Sound p) {action : Action}
    (hCalm : action ≠ .close ∧ action ≠ .giveUp) (hPossible : p.possible action = true) (hV : V w)
    (hW : p.Live W w) :
    Sound (p.act P finish w action).1 ∧ (p.act P finish w action).1.work < p.work := by
  cases action with
  | receive size =>
      have hParts := hPossible
      simp only [possible, decide_eq_true_eq, ← List.length_pos_iff] at hParts
      obtain ⟨-, hSize, -, hUpstream⟩ := hParts
      rcases @Asked.receive_cases σ P finish V W R p w hBehaved hAsked size hPossible hV
        (hW h.isOpen) with ⟨handler, pending, -, -, -, -, hNone, hEq⟩ |
          ⟨handler, reply, w', -, hNone, hUnsent, hEnclosed, hFits, -, -, -, -, hEq⟩ <;> rw [hEq]
      · refine ⟨⟨h.isOpen, h.sent, h.shown⟩, ?_⟩
        simp only [work, List.length_drop]
        omega
      · refine ⟨⟨h.isOpen, h.sent, h.shown⟩, ?_⟩
        simp only [work, hNone, List.isEmpty_nil, cond_true, List.isEmpty_cons, cond_false,
          List.length_append, List.length_nil]
        omega
  | read size =>
      have hParts := hPossible
      simp only [possible, decide_eq_true_eq, ← List.length_pos_iff] at hParts
      obtain ⟨hPhase, hSize, -, hDownstream⟩ := hParts
      have hSent := h.sent (by simp [hPhase])
      rcases hTold.read_cases hAsked hPossible with ⟨client, got, -, -, -, hEq⟩ |
        ⟨client, hSome, hEq⟩ <;> unfold Peer.act <;> dsimp only <;> rw [hEq]
      · refine ⟨⟨h.isOpen, fun _ => hSent, fun hDone => Phase.noConfusion hDone⟩, ?_⟩
        simp only [work, hPhase, List.length_drop]
        omega
      · refine ⟨⟨h.isOpen, fun _ => hSent, fun _ => ?_⟩, ?_⟩
        · simpa [replies] using hSome
        · simp only [work, hPhase, List.length_drop]
          omega
  | send size =>
      simp only [possible, decide_eq_true_eq, ← List.length_pos_iff] at hPossible
      obtain ⟨hPhase, hSize, hUnsent⟩ := hPossible
      refine ⟨⟨h.isOpen, fun hNot => absurd hPhase hNot, h.shown⟩, ?_⟩
      simp only [work, Peer.act, List.length_append, List.length_drop, List.length_take]
      omega
  | wrote =>
      simp only [possible, decide_eq_true_eq] at hPossible
      obtain ⟨hPhase, hUnsent⟩ := hPossible
      refine ⟨⟨h.isOpen, fun _ => hUnsent, fun hDone => Phase.noConfusion hDone⟩, ?_⟩
      simp only [work, Peer.act, hPhase]
      omega
  | close => exact absurd rfl hCalm.1
  | giveUp => exact absurd rfl hCalm.2

/-- Where no action but a failure is possible, the client has printed the reply. -/
theorem Sound.answered {p : Peer} {w : σ} (hAsked : Asked R p w) (hTold : Told p) (h : Sound p)
    (hStuck : ∀ action, action ≠ .close → action ≠ .giveUp → p.possible action = false) :
    p.phase = .done ∧ ∃ reply, R p.request reply w ∧ p.answers = [(p.request, reply)] ∧
      p.printed = [reply] := by
  have hDone : p.phase = .done := by
    cases hPhase : p.phase with
    | done => rfl
    | writing =>
        by_cases hUnsent : p.unsent = []
        · have hNot := hStuck .wrote (fun h => Action.noConfusion h) (fun h => Action.noConfusion h)
          simp [possible, hPhase, hUnsent] at hNot
        · have hNot := hStuck (.send 1) (fun h => Action.noConfusion h)
            (fun h => Action.noConfusion h)
          simp [possible, hPhase, hUnsent] at hNot
    | reading =>
        have hSent := h.sent (by simp [hPhase])
        by_cases hNone : p.answers = []
        · obtain ⟨pending, -, hRest, hNot⟩ := hAsked.waiting hNone h.isOpen
          have hUpstream : p.upstream ≠ [] := by
            rintro hNil
            rw [hNil, hSent, List.append_nil, List.append_nil] at hRest
            exact hNot hRest
          have hNot := hStuck (.receive 1) (fun h => Action.noConfusion h)
            (fun h => Action.noConfusion h)
          simp [possible, h.isOpen, hUpstream, readSize] at hNot
        · obtain ⟨-, got, -, hRest, hNot⟩ := hTold.waiting (by simp [hPhase])
          have hDownstream : p.downstream ≠ [] := by
            rintro hNil
            rw [hNil, List.append_nil] at hRest
            exact hNot hNone hRest
          have hNot := hStuck (.read 1) (fun h => Action.noConfusion h)
            (fun h => Action.noConfusion h)
          simp [possible, hPhase, hDownstream, readSize] at hNot
  obtain ⟨hPrinted, hSome⟩ := hTold.printed.resolve_left (h.shown hDone)
  obtain ⟨-, -, reply, hAnswers, -, -, hAnswer⟩ := hAsked.answered hSome
  refine ⟨hDone, reply, hAnswer, hAnswers, ?_⟩
  rw [hPrinted, replies, hAnswers]
  rfl

end

end Peer

/-- All connections ever made, and the processor's state. -/
structure Network (σ : Type) where
  peers : List Peer
  nextId : UInt32
  world : σ

/-- A client connects, or something happens at a connection. -/
inductive Event
  | connect (request : Bytes)
  | act (index : Nat) (action : Action)

/-- Whether a client connects. -/
def Event.isConnect : Event → Bool
  | .connect _ => true
  | .act _ _ => false

namespace Network

variable {σ : Type}

/-- Nobody has connected. -/
def new (nextId : UInt32) (world : σ) : Network σ := ⟨[], nextId, world⟩

section

variable (P : IRequestProcessor σ) (start finish : UInt32 → σ → σ)

/-- One event.  An event that is not possible changes nothing. -/
def step (s : Network σ) : Event → Network σ
  | .connect request =>
      { peers := s.peers ++ [.connect request s.nextId]
        nextId := s.nextId + 1
        world := start s.nextId s.world }
  | .act index action =>
      match s.peers[index]? with
      | none => s
      | some p =>
          if p.possible action then
            let result := p.act P finish s.world action
            { s with peers := s.peers.set index result.1, world := result.2 }
          else s

/-- The network after some events. -/
def run : Network σ → List Event → Network σ
  | s, [] => s
  | s, event :: events => run (step P start finish s event) events

end

variable {P : IRequestProcessor σ} {start finish : UInt32 → σ → σ}

variable (P start finish) in
/-- What an action does to the network. -/
theorem step_act (s : Network σ) (index : Nat) (action : Action) :
    (step P start finish s (.act index action) = s ∧
        ∀ p, s.peers[index]? = some p → p.possible action = false) ∨
      ∃ p, s.peers[index]? = some p ∧ p.possible action = true ∧
        step P start finish s (.act index action) =
          { s with
            peers := s.peers.set index (p.act P finish s.world action).1
            world := (p.act P finish s.world action).2 } := by
  unfold step
  dsimp only
  cases hPeer : s.peers[index]? with
  | none => exact .inl ⟨rfl, fun p h => by cases h⟩
  | some p =>
      cases hPossible : p.possible action with
      | false =>
          refine .inl ⟨if_neg (by simp [hPossible]), fun p' h => ?_⟩
          cases h
          exact hPossible
      | true => exact .inr ⟨p, rfl, hPossible, if_pos hPossible⟩

/-- How many clients connect. -/
def connects (events : List Event) : Nat := events.countP Event.isConnect

/-- The id of the session of a connection. -/
def idAt (first : UInt32) (index : Nat) : UInt32 := first + UInt32.ofNat index

theorem idAt_zero (first : UInt32) : first = idAt first 0 := (UInt32.add_zero first).symm

theorem idAt_inj {first : UInt32} {i j : Nat} (hi : i < 2 ^ 32) (hj : j < 2 ^ 32)
    (h : idAt first i = idAt first j) : i = j := by
  have hEq := congrArg UInt32.toNat ((UInt32.add_right_inj first).mp h)
  rwa [UInt32.toNat_ofNat_of_lt' hi, UInt32.toNat_ofNat_of_lt' hj] at hEq

/-- What holds of all elements holds of them when one is replaced. -/
theorem getElem?_set_keeps {α : Type} {I : Nat → α → σ → Prop} {l : List α} {index : Nat} {a b : α}
    {w w' : σ} (hGet : l[index]? = some a) (h : ∀ i x, l[i]? = some x → I i x w)
    (hOwn : I index b w') (hOthers : ∀ i x, i ≠ index → I i x w → I i x w') :
    ∀ i x, (l.set index b)[i]? = some x → I i x w' := by
  intro i x hx
  rw [List.getElem?_set] at hx
  split at hx
  · rename_i hEq
    subst hEq
    rw [if_pos (List.getElem?_eq_some_iff.mp hGet).1] at hx
    cases hx
    exact hOwn
  · rename_i hNe
    exact hOthers i x (Ne.symm hNe) (h i x hx)

/-- What holds of every new connection, is kept by its actions and is not touched by those of the
others holds of all connections. -/
theorem run_keeps {first : UInt32} {bound : Nat} {I : Nat → Peer → σ → Prop} {V : σ → Prop}
    {allowed : Event → Prop}
    (hConnect : ∀ request index w, allowed (.connect request) → index < bound → V w →
      V (start (idAt first index) w) ∧
        I index (.connect request (idAt first index)) (start (idAt first index) w) ∧
        ∀ other p, I other p w → I other p (start (idAt first index) w))
    (hAct : ∀ index p action w, allowed (.act index action) → p.possible action = true → V w →
      I index p w →
        V (p.act P finish w action).2 ∧
          I index (p.act P finish w action).1 (p.act P finish w action).2 ∧
          ∀ other q, other ≠ index → I other q w → I other q (p.act P finish w action).2)
    {events : List Event} : ∀ {s : Network σ}, s.nextId = idAt first s.peers.length →
      s.peers.length + connects events ≤ bound →
      (∀ index p, s.peers[index]? = some p → I index p s.world) → V s.world →
      (∀ event ∈ events, allowed event) →
        (∀ index p, (run P start finish s events).peers[index]? = some p →
          I index p (run P start finish s events).world) ∧
          V (run P start finish s events).world := by
  induction events with
  | nil => exact fun _ _ hPeers hWorld _ => ⟨hPeers, hWorld⟩
  | cons event events ih =>
      intro s hId hBound hPeers hWorld hAllowed
      obtain ⟨hEvent, hRest⟩ := List.forall_mem_cons.mp hAllowed
      cases event with
      | connect request =>
          have hCount : connects (.connect request :: events) = connects events + 1 :=
            List.countP_cons_of_pos rfl
          rw [hCount] at hBound
          obtain ⟨hV, hNew, hOld⟩ :=
            hConnect request s.peers.length s.world hEvent (by omega) hWorld
          rw [← hId] at hV hNew hOld
          refine ih (s := step P start finish s (.connect request)) ?_ ?_ ?_ hV hRest
          · simp only [step, List.length_append, List.length_singleton]
            rw [hId, idAt, idAt, UInt32.add_assoc, ← UInt32.ofNat_one, ← UInt32.ofNat_add]
          · simp only [step, List.length_append, List.length_singleton]
            omega
          · intro index p hPeer
            simp only [step] at hPeer
            by_cases hIndex : index < s.peers.length
            · rw [List.getElem?_append_left hIndex] at hPeer
              exact hOld index p (hPeers index p hPeer)
            · rw [List.getElem?_append_right (Nat.le_of_not_lt hIndex),
                List.getElem?_singleton] at hPeer
              split at hPeer
              · rename_i hZero
                cases hPeer
                obtain rfl : index = s.peers.length := by omega
                exact hNew
              · cases hPeer
      | act index action =>
          have hCount : connects (.act index action :: events) = connects events :=
            List.countP_cons_of_neg Bool.false_ne_true
          rw [hCount] at hBound
          rcases step_act P start finish s index action with
            ⟨hSame, -⟩ | ⟨p, hPeer, hPossible, hStep⟩
          · rw [run, hSame]
            exact ih hId hBound hPeers hWorld hRest
          · obtain ⟨hV, hOwn, hOthers⟩ := hAct index p action s.world hEvent hPossible hWorld
              (hPeers index p hPeer)
            rw [run, hStep]
            refine ih ?_ ?_ ?_ hV hRest
            · rw [List.length_set]
              exact hId
            · rw [List.length_set]
              exact hBound
            · exact getElem?_set_keeps hPeer hPeers hOwn hOthers

/-- In every run every client prints one text at most, the beginning of the replies to its session;
these are what the processor replied to the texts that the session dispatched, and the texts are
the beginning of what this client wrote. -/
theorem prints_prefix (P : IRequestProcessor σ) (start finish : UInt32 → σ → σ) (nextId : UInt32)
    (world : σ) (events : List Event) :
    ∀ p ∈ (run P start finish (new nextId world) events).peers,
      p.printed.length ≤ 1 ∧ (∀ text ∈ p.printed, text <+: p.replies.flatten) ∧
        (∀ answer ∈ p.answers, ∃ memory w w', memory.take answer.1.length = answer.1 ∧
          P.process p.handler.id memory answer.1.length w = (.ok answer.2, w')) ∧
        p.dispatched.flatten <+: p.request := by
  have hAll := @run_keeps σ P start finish nextId (connects events)
    (fun _ p _ => p.Served P ∧ p.Shown) (fun _ => True) (fun _ => True)
    (fun request index w _ _ _ =>
      ⟨trivial, ⟨.connect request _, .connect request _⟩, fun _ _ h => h⟩)
    (fun index p action w _ hPossible _ h =>
      ⟨trivial, ⟨h.1.act hPossible w, h.2.act h.1 hPossible w⟩, fun _ _ _ h => h⟩)
    events (new nextId world) (idAt_zero nextId) (Nat.le_of_eq (Nat.zero_add _)) (by simp [new])
    trivial (fun _ _ => trivial)
  intro p hp
  obtain ⟨index, hPeer⟩ := List.getElem?_of_mem hp
  obtain ⟨hServed, hShown⟩ := hAll.1 index p hPeer
  exact ⟨hShown.once, hShown.printed, hServed.answered, hServed.dispatched⟩

/-- A processor that says yes to everything. -/
def assent : IRequestProcessor Unit where
  process _ _ _ w := (.ok (ascii "\x7b\"ok\":1\x7d"), w)
  returns _ _ _ _ := ⟨_, rfl⟩

/-- A client that gets its reply. -/
def assents : Network Unit :=
  run assent (fun _ w => w) (fun _ w => w) (new 7 ())
    [.connect (ascii "\x7b\x7d"), .act 0 (.send 2), .act 0 .wrote, .act 0 (.receive 2),
      .act 0 (.read 8)]

def assented : Peer := assents.peers.headD (.connect [] 0)

theorem prints_prefix_assented :
    assented.printed = [ascii "\x7b\"ok\":1\x7d"] ∧
      assented.printed.length ≤ 1 ∧ (∀ text ∈ assented.printed, text <+: assented.replies.flatten) ∧
        (∀ answer ∈ assented.answers, ∃ memory w w', memory.take answer.1.length = answer.1 ∧
          assent.process assented.handler.id memory answer.1.length w = (.ok answer.2, w')) ∧
        assented.dispatched.flatten <+: assented.request := by
  have hFirst : assents.peers.head?.map Peer.printed = some [ascii "\x7b\"ok\":1\x7d"] := by
    decide +kernel
  obtain ⟨p, hp, hPrinted⟩ := Option.map_eq_some_iff.mp hFirst
  have hAssented : assented = p := by
    rw [assented, List.headD_eq_head?_getD, hp]
    rfl
  have hMem : p ∈ assents.peers := List.mem_of_mem_head? hp
  rw [hAssented]
  exact ⟨hPrinted, prints_prefix assent _ _ 7 () _ p hMem⟩

variable {V : σ → Prop} {W : UInt32 → σ → Prop} {R : Bytes → Bytes → σ → Prop}

/-- What holds of the connections of well behaved requests. -/
structure Orderly (P : IRequestProcessor σ) (V : σ → Prop) (W : UInt32 → σ → Prop)
    (R : Bytes → Bytes → σ → Prop) (first : UInt32) (index : Nat) (p : Peer) (w : σ) : Prop where
  behaved : Peer.WellBehaved P V W R p.request
  asked : p.Asked R w
  told : p.Told
  live : p.Live W w
  id_eq : p.handler.id = idAt first index
  index_lt : index < 2 ^ 32

/-- A new connection is in order, and leaves the others so. -/
theorem Orderly.connect (hKeeps : Peer.Keeps start finish V W R) {first : UInt32} {request : Bytes}
    (hBehaved : Peer.WellBehaved P V W R request) {index : Nat} (hIndex : index < 2 ^ 32) {w : σ}
    (hV : V w) :
    V (start (idAt first index) w) ∧
      Orderly P V W R first index (.connect request (idAt first index))
        (start (idAt first index) w) ∧
      ∀ other p, Orderly P V W R first other p w →
        Orderly P V W R first other p (start (idAt first index) w) := by
  obtain ⟨hV', hNew, hOld, hStays⟩ := hKeeps.start (idAt first index) w hV
  exact ⟨hV', ⟨hBehaved, .connect hBehaved _ _, .connect request _, fun _ => hNew, rfl, hIndex⟩,
    fun _ p h =>
      { h with
        asked := h.asked.stays hStays
        live := fun hOpen => hOld _ (h.live hOpen) }⟩

/-- An action keeps its connection in order, and the others too, because their sessions have other
ids. -/
theorem Orderly.act (hKeeps : Peer.Keeps start finish V W R) {first : UInt32} {index : Nat}
    {p : Peer}
    {w : σ} (h : Orderly P V W R first index p w) {action : Action}
    (hPossible : p.possible action = true) (hV : V w) :
    V (p.act P finish w action).2 ∧
      Orderly P V W R first index (p.act P finish w action).1 (p.act P finish w action).2 ∧
      ∀ other q, other ≠ index → Orderly P V W R first other q w →
        Orderly P V W R first other q (p.act P finish w action).2 := by
  obtain ⟨hAsked, hV', hLive, hId, hOthers, hStays⟩ :=
    h.asked.act hKeeps h.behaved hPossible hV h.live
  refine ⟨hV', ⟨?_, hAsked, h.told.act h.behaved h.asked hPossible hV h.live, hLive,
    hId.trans h.id_eq, h.index_lt⟩, fun other q hOther hq => ?_⟩
  · rw [Peer.request_act]
    exact h.behaved
  · have hNe : q.handler.id ≠ p.handler.id := by
      rw [hq.id_eq, h.id_eq]
      exact fun hEq => hOther (idAt_inj hq.index_lt h.index_lt hEq)
    exact
      { hq with
        asked := hq.asked.stays hStays
        live := fun hOpen => hOthers _ hNe (hq.live hOpen) }

/-- Actions that are possible one after the other, none of which is a failure. -/
def Proceeds (P : IRequestProcessor σ) (start finish : UInt32 → σ → σ) :
    Network σ → List (Nat × Action) → Prop
  | _, [] => True
  | s, (index, action) :: actions =>
      action ≠ .close ∧ action ≠ .giveUp ∧
        (∃ p, s.peers[index]? = some p ∧ p.possible action = true) ∧
        Proceeds P start finish (step P start finish s (.act index action)) actions

/-- What is left to do at all connections together. -/
def work (s : Network σ) : Nat := (s.peers.map Peer.work).sum

/-- Less work at one connection is less work. -/
private theorem sum_map_set_lt {α : Type} {f : α → Nat} {a b : α} (hLt : f b < f a) :
    ∀ {l : List α} {i : Nat},
    l[i]? = some a → ((l.set i b).map f).sum < (l.map f).sum
  | [], _, h => by cases h
  | x :: l, 0, h => by
      cases h
      simpa using hLt
  | x :: l, i + 1, h => by
      have := sum_map_set_lt hLt (l := l) (i := i) h
      simpa using this

/-- Both ends of a connection in order go on. -/
def Going (P : IRequestProcessor σ) (V : σ → Prop) (W : UInt32 → σ → Prop)
    (R : Bytes → Bytes → σ → Prop) (first : UInt32) (index : Nat) (p : Peer) (w : σ) : Prop :=
  Orderly P V W R first index p w ∧ p.Sound

theorem Going.act (hKeeps : Peer.Keeps start finish V W R) {first : UInt32} {index : Nat} {p : Peer}
    {w : σ} (h : Going P V W R first index p w) {action : Action}
    (hCalm : action ≠ .close ∧ action ≠ .giveUp) (hPossible : p.possible action = true) (hV : V w) :
    (V (p.act P finish w action).2 ∧
      Going P V W R first index (p.act P finish w action).1 (p.act P finish w action).2 ∧
      ∀ other q, other ≠ index → Going P V W R first other q w →
        Going P V W R first other q (p.act P finish w action).2) ∧
      (p.act P finish w action).1.work < p.work := by
  obtain ⟨hOrderly, hSound⟩ := h
  obtain ⟨hV', hOwn, hOthers⟩ := hOrderly.act hKeeps hPossible hV
  obtain ⟨hSound', hWork⟩ := @Peer.Sound.act σ P finish V W R p w hOrderly.behaved hOrderly.asked
    hOrderly.told hSound action hCalm hPossible hV hOrderly.live
  exact ⟨⟨hV', ⟨hOwn, hSound'⟩,
    fun other q hOther hq => ⟨hOthers other q hOther hq.1, hq.2⟩⟩, hWork⟩

/-- There are no more actions than there is work. -/
theorem length_le_work (hKeeps : Peer.Keeps start finish V W R) {first : UInt32}
    (actions : List (Nat × Action)) : ∀ {s : Network σ},
      (∀ index p, s.peers[index]? = some p → Going P V W R first index p s.world) → V s.world →
      Proceeds P start finish s actions → actions.length ≤ s.work := by
  induction actions with
  | nil => exact fun _ _ _ => Nat.zero_le _
  | cons head actions ih =>
      obtain ⟨index, action⟩ := head
      intro s hGoing hWorld hProceeds
      obtain ⟨hClose, hGiveUp, ⟨p, hPeer, hPossible⟩, hRest⟩ := hProceeds
      obtain ⟨⟨hWorld', hOwn, hOthers⟩, hWork⟩ :=
        (hGoing index p hPeer).act hKeeps ⟨hClose, hGiveUp⟩ hPossible hWorld
      rcases step_act P start finish s index action with ⟨-, hNot⟩ | ⟨p', hPeer', -, hStep⟩
      · exact absurd (hNot p hPeer) (by simp [hPossible])
      · cases hPeer.symm.trans hPeer'
        rw [hStep] at hRest
        have hLe := ih (getElem?_set_keeps hPeer hGoing hOwn hOthers) hWorld' hRest
        have hLt : (((s.peers.set index (p.act P finish s.world action).1)).map Peer.work).sum <
            s.work := sum_map_set_lt hWork hPeer
        rw [List.length_cons]
        exact Nat.lt_of_le_of_lt hLe hLt

end Network

end Kexplorer.Kesctl

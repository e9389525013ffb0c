import Kexplorer.Server.Framing
import Kexplorer.Server.TcpSteps

/-!
# Tearing sessions down

`Session::close` is `noexcept` and calls the throwing forms of `shutdown` and
`close`.  `Stops` says in which states which events end the program; all other
events leave every socket closed that a `close` has been called for.
-/

namespace Kexplorer.Server.TcpServer

open Kexplorer.Lib

variable {η σ : Type} {T : SessionHandlerT η σ} {calls : Calls}

/-! ## Which calls end the program -/

theorem closeAndRemove_terminated_iff {s : TcpServer η σ} {self : Nat} :
    closeAndRemove T calls self s = .error .terminated ↔
      ∃ session, s.member self = .ok session ∧ Sticks calls session := by
  rcases member_cases s self with ⟨session, h⟩ | h
  · rw [h]
    rcases closeAndRemove_eq T calls h with ⟨hEq, hSticks⟩ | ⟨hEq, hSticks⟩
    · simpa [hEq] using hSticks
    · simpa [hEq] using hSticks
  · rw [closeAndRemove_undefined h, h]
    simp

theorem processRead_terminated_iff {s : TcpServer η σ} {self : Nat} {data : Bytes} :
    processRead T calls self data s = .error .terminated ↔
      ∃ session handler, s.member self = .ok session ∧ session.sessionHandler = some handler ∧
        ((T.process handler data s.world).1.1 = .Abort ∨ calls.asyncWrite = true) ∧
          Sticks calls session := by
  rcases member_cases s self with ⟨session, h⟩ | h
  · rw [processRead_eq h, h]
    cases hHandler : session.sessionHandler with
    | none => simp [hHandler]
    | some handler =>
        have hMember := @member_handled _ _ T _ _ _ h handler data
        by_cases hFails : (T.process handler data s.world).1.1 = .Abort ∨ calls.asyncWrite = true
        · simp [hFails, hHandler, closeAndRemove_terminated_iff, hMember, Sticks]
        · simp [hFails, hHandler]
  · rw [processRead_undefined h, h]
    simp

theorem onRead_terminated_iff {s : TcpServer η σ} {self : Nat} {data : Option Bytes} :
    onRead T calls self data s = .error .terminated ↔
      ∃ session, s.member self = .ok session ∧ Sticks calls session ∧
        ∀ bytes, data = some bytes → calls.asyncReadSome = true ∨
          ∃ handler, session.sessionHandler = some handler ∧
            ((T.process handler bytes s.world).1.1 = .Abort ∨ calls.asyncWrite = true) := by
  rcases member_cases s self with ⟨session, h⟩ | h
  · rw [h]
    cases data with
    | none => simp [onRead_none h, closeAndRemove_terminated_iff, h]
    | some bytes =>
        rw [onRead_some h]
        by_cases hRead : calls.asyncReadSome = true
        · rw [if_pos hRead]
          rcases closeAndRemove_eq T calls h with ⟨hEq, hSticks⟩ | ⟨hEq, hSticks⟩
          · rw [hEq]
            simpa [bind, Except.bind, hRead] using hSticks
          · -- the socket is closed by now
            have hNot : processRead T calls self bytes
                (removeSession T session.id (s.closedAt self)) ≠ .error .terminated := by
              rw [Ne, processRead_terminated_iff]
              rintro ⟨session', handler, hMember, -, -, hOpen, -⟩
              have hObject := (member_eq_ok_iff.mp hMember).1
              rw [objects_removeSession, (member_eq_ok_iff.mp (member_closedAt h)).1] at hObject
              cases hObject
              cases hOpen
            rw [hEq]
            simpa [bind, Except.bind, hRead, hSticks] using hNot
        · have hMember : ({ s with reads := s.reads ++ [self] } : TcpServer η σ).member self =
              .ok session := h
          rw [if_neg hRead, processRead_terminated_iff, hMember]
          simp only [Except.ok.injEq, exists_eq_left', hRead, Bool.false_eq_true, false_or,
            Option.some.injEq, forall_eq']
          grind
  · rw [onRead_undefined h, h]
    simp

theorem onWrite_terminated_iff {s : TcpServer η σ} {self : Nat} {ec : Bool} :
    onWrite T calls self ec s = .error .terminated ↔
      ec = true ∧ ∃ session, s.member self = .ok session ∧ Sticks calls session := by
  rcases member_cases s self with ⟨session, h⟩ | h
  · rw [onWrite_eq h]
    cases ec with
    | false => simp
    | true => simp [closeAndRemove_terminated_iff]
  · rw [onWrite_undefined h, h]
    simp

theorem onAccept_terminated_iff {s : TcpServer η σ} {ec : Bool} :
    onAccept T calls ec s = .error .terminated ↔
      ec = false ∧ calls.remoteEndpoint = false ∧ calls.asyncReadSome = true ∧
        (calls.shutdown = true ∨ calls.close = true) := by
  cases ec with
  | true =>
      unfold onAccept
      simp [pure, Except.pure]
  | false =>
      cases hEndpoint : calls.remoteEndpoint with
      | true =>
          rw [onAccept_eq, if_pos hEndpoint]
          simp
      | false =>
          cases hRead : calls.asyncReadSome with
          | true =>
              rcases onAccept_refused T calls s hEndpoint hRead with
                ⟨hThrows, hEnds⟩ | ⟨hNone, world, hOk⟩
              · exact iff_of_true hEnds ⟨rfl, rfl, rfl, hThrows⟩
              · refine iff_of_false (fun hEq => ?_) fun h => hNone h.2.2.2
                cases hOk.symm.trans hEq
          | false =>
              obtain ⟨world, hOk⟩ := onAccept_reads T calls s hEndpoint hRead
              rw [hOk]
              simp

/-! ## Which events end the program -/

/-- The event ends the program: a call that fails on the session's socket, or an `Abort`, makes the
server close a socket that is open, and `shutdown` or `close` throws. -/
def Stops (T : SessionHandlerT η σ) (s : TcpServer η σ) : Event → Prop
  | .accepted ec calls =>
      s.accepting = true ∧ ec = false ∧ calls.remoteEndpoint = false ∧
        calls.asyncReadSome = true ∧ (calls.shutdown = true ∨ calls.close = true)
  | .retry => False
  | .received index data calls =>
      ∃ self session, s.reads[index]? = some self ∧ s.member self = .ok session ∧
        Sticks calls session ∧
          ∀ bytes, data = some bytes → calls.asyncReadSome = true ∨
            ∃ handler, session.sessionHandler = some handler ∧
              ((T.process handler bytes s.world).1.1 = .Abort ∨ calls.asyncWrite = true)
  | .sent _ _ => False
  | .wrote index ec calls =>
      ∃ w session, s.writes[index]? = some w ∧ ec = true ∧ s.member w.session = .ok session ∧
        Sticks calls session
  | .destroyed throwing =>
      ∃ self ∈ s.sessions, self ∈ throwing ∧
        ∃ session, s.objects[self]? = some session ∧ session.isOpen = true

/-- The sessions in `m_sessions` exist, and those that were closed have their sockets closed. -/
structure Shut (s : TcpServer η σ) : Prop where
  sessions : ∀ self ∈ s.sessions, ∃ session, s.objects[self]? = some session
  closed : ∀ self ∈ s.closed, ∃ session, s.objects[self]? = some session ∧ session.isOpen = false

theorem shut_new (nextId : UInt32) (world : σ) : Shut (new nextId world : TcpServer η σ) :=
  ⟨List.forall_mem_nil _, List.forall_mem_nil _⟩

/-- No change of a session opens its socket again. -/
theorem shut_update {s : TcpServer η σ} (h : Shut s) (self : Nat)
    {f : TcpSession η → TcpSession η}
    (hf : ∀ session, session.isOpen = false → (f session).isOpen = false) :
    Shut (s.update self f) := by
  constructor
  · intro other hOther
    obtain ⟨session, hObject⟩ := h.sessions other hOther
    rw [getElem?_update, hObject]
    split
    · exact ⟨f session, rfl⟩
    · exact ⟨session, rfl⟩
  · intro other hOther
    obtain ⟨session, hObject, hShut⟩ := h.closed other hOther
    rw [getElem?_update, hObject]
    split
    · exact ⟨f session, rfl, hf session hShut⟩
    · exact ⟨session, rfl, hShut⟩

theorem shut_closedAt {s : TcpServer η σ} {self : Nat} {session : TcpSession η} (h : Shut s)
    (hMember : s.member self = .ok session) : Shut (s.closedAt self) := by
  have hUpdate := shut_update h self (f := fun session => { session with isOpen := false })
    (fun _ _ => rfl)
  refine ⟨hUpdate.sessions, ?_⟩
  intro other hOther
  rcases List.mem_cons.mp hOther with rfl | hOther
  · exact ⟨_, (member_eq_ok_iff.mp (member_closedAt hMember)).1, rfl⟩
  · exact hUpdate.closed other hOther

theorem kept_shut : Kept T (Shut : TcpServer η σ → Prop) where
  same h hObjects hSessions hClosed := by
    constructor
    · rw [hSessions, hObjects]
      exact h.sessions
    · rw [hClosed, hObjects]
      exact h.closed
  closedAt := shut_closedAt
  removeSession h id := by
    constructor
    · intro self hSelf
      rw [objects_removeSession]
      exact h.sessions self (mem_sessions_removeSession hSelf)
    · rw [closed_removeSession, objects_removeSession]
      exact h.closed
  update h self f hOpen _ _ := shut_update h self fun session hShut => by rw [hOpen, hShut]
  createSession {s} h := by
    constructor
    · intro self hSelf
      rcases List.mem_append.mp hSelf with hSelf | hSelf
      · obtain ⟨session, hObject⟩ := h.sessions self hSelf
        exact ⟨session, getElem?_createSession hObject⟩
      · rw [List.mem_singleton.mp hSelf]
        exact ⟨_, (member_eq_ok_iff.mp (member_createSession s)).1⟩
    · intro self hSelf
      obtain ⟨session, hObject, hShut⟩ := h.closed self hSelf
      exact ⟨session, getElem?_createSession hObject, hShut⟩

/-- A chunk of sent bytes opens no socket. -/
theorem shut_step {s s' : TcpServer η σ} {event : Event} (h : Shut s)
    (hStep : step T s event = .ok s') : Shut s' :=
  kept_shut.step h (fun _ _ _ self => shut_update h self fun _ hShut => hShut) hStep

private theorem sticks_closing_iff {throwing : List Nat} {self : Nat} {session : TcpSession η} :
    Sticks { shutdown := self ∈ throwing } session ↔ session.isOpen = true ∧ self ∈ throwing := by
  simp [Sticks]

/-- The destructor ends the program at the first open socket that cannot be closed. -/
theorem closeAll_terminated_iff {throwing selves : List Nat} :
    ∀ {s : TcpServer η σ}, Shut s → (∀ self ∈ selves, self ∈ s.sessions) →
      (closeAll throwing selves s = .error .terminated ↔
        ∃ self ∈ selves, self ∈ throwing ∧
          ∃ session, s.objects[self]? = some session ∧ session.isOpen = true) := by
  induction selves with
  | nil =>
      intro s _ _
      simp [closeAll]
  | cons self selves ih =>
      intro s hShut hSessions
      have hSelf := hSessions self (List.mem_cons_self ..)
      obtain ⟨session, hObject⟩ := hShut.sessions self hSelf
      have hMember : s.member self = .ok session :=
        member_eq_ok_iff.mpr ⟨hObject, by simp [isOwned, hSelf]⟩
      unfold closeAll
      by_cases hSticks : Sticks { shutdown := self ∈ throwing } session
      · rw [close_of_sticks hMember hSticks]
        have hOpen := sticks_closing_iff.mp hSticks
        exact iff_of_true rfl ⟨self, List.mem_cons_self .., hOpen.2, session, hObject, hOpen.1⟩
      · rw [close_of_not_sticks hMember hSticks]
        have hTail := ih (shut_closedAt hShut hMember) fun other hOther =>
          hSessions other (List.mem_cons_of_mem _ hOther)
        refine hTail.trans ⟨?_, ?_⟩
        · rintro ⟨other, hOther, hThrows, session', hObject', hOpen⟩
          rw [closedAt, getElem?_update] at hObject'
          split at hObject'
          · -- the socket closed before
            obtain ⟨session'', -, rfl⟩ := Option.map_eq_some_iff.mp hObject'
            cases hOpen
          · exact ⟨other, List.mem_cons_of_mem _ hOther, hThrows, session', hObject', hOpen⟩
        · rintro ⟨other, hOther, hThrows, session', hObject', hOpen⟩
          have hNe : self ≠ other := by
            rintro rfl
            cases hObject.symm.trans hObject'
            exact hSticks (sticks_closing_iff.mpr ⟨hOpen, hThrows⟩)
          refine ⟨other, (List.mem_cons.mp hOther).resolve_left hNe.symm, hThrows, session', ?_,
            hOpen⟩
          rw [closedAt, getElem?_update, if_neg hNe, hObject']

theorem step_terminated_iff {s : TcpServer η σ} (hShut : Shut s) (hStop : s.stop = false)
    (event : Event) : step T s event = .error .terminated ↔ Stops T s event := by
  cases event with
  | accepted ec calls =>
      rw [step_accepted hStop]
      by_cases hAccepting : s.accepting = true
      · rw [if_pos hAccepting, onAccept_terminated_iff]
        exact (and_iff_right hAccepting).symm
      · rw [if_neg hAccepting]
        exact iff_of_false nofun fun h => hAccepting h.1
  | retry =>
      rw [step_retry hStop]
      split <;> exact iff_of_false nofun id
  | received index data calls =>
      cases hRead : s.reads[index]? with
      | none =>
          rw [step_received_none hStop hRead]
          simp [Stops, hRead]
      | some self =>
          rw [step_received hStop hRead]
          refine onRead_terminated_iff.trans ⟨?_, ?_⟩
          · rintro ⟨session, hMember, hSticks, hFails⟩
            exact ⟨self, session, hRead, hMember, hSticks, hFails⟩
          · rintro ⟨self', session, hSelf, hMember, hSticks, hFails⟩
            cases hRead.symm.trans hSelf
            exact ⟨session, hMember, hSticks, hFails⟩
  | sent index bytes =>
      rcases step_sent (T := T) hStop index bytes with hEq | ⟨w, -, -, hEq⟩ <;> rw [hEq]
      · exact iff_of_false nofun id
      · exact iff_of_false nofun id
  | wrote index ec calls =>
      cases hWrite : s.writes[index]? with
      | none =>
          rw [step_wrote_none hStop hWrite]
          simp [Stops, hWrite]
      | some w =>
          rw [step_wrote hStop hWrite]
          by_cases hEnds : (ec || decide (w.remaining = [])) = true
          · rw [if_pos hEnds]
            refine onWrite_terminated_iff.trans ⟨?_, ?_⟩
            · rintro ⟨hError, session, hMember, hSticks⟩
              exact ⟨w, session, hWrite, hError, hMember, hSticks⟩
            · rintro ⟨w', session, hSelf, hError, hMember, hSticks⟩
              cases hWrite.symm.trans hSelf
              exact ⟨hError, session, hMember, hSticks⟩
          · rw [if_neg hEnds]
            refine iff_of_false nofun ?_
            rintro ⟨w', session, -, hError, -⟩
            exact hEnds (by rw [hError, Bool.true_or])
  | destroyed throwing =>
      rw [step_destroyed hStop, map_eq_error_iff]
      exact closeAll_terminated_iff hShut fun _ h => h

/-! ## Runs -/

/-- The event ends neither in `std::terminate` nor with a socket open that was to be closed. -/
def TearsDown (T : SessionHandlerT η σ) (s : TcpServer η σ) (event : Event) : Prop :=
  step T s event ≠ .error .terminated ∧
    ∀ s', step T s event = .ok s' →
      ∀ self ∈ s'.closed, ∃ session, s'.objects[self]? = some session ∧ session.isOpen = false

/-- Teardown works in a run exactly if, while the server exists, no call of `shutdown` or `close`
that is made for an open socket throws. -/
theorem tearsDown_iff (T : SessionHandlerT η σ) (nextId : UInt32) (world : σ)
    (events : List Event) :
    Always (step T) (TearsDown T) (new nextId world) events ↔
      Always (step T) (fun s event => s.stop = true ∨ ¬ Stops T s event) (new nextId world)
        events := by
  have hClosed (s : TcpServer η σ) (event : Event) (hShut : Shut s) : ∀ s',
      step T s event = .ok s' →
        ∀ self ∈ s'.closed, ∃ session, s'.objects[self]? = some session ∧ session.isOpen = false :=
    fun s' hStep => (shut_step hShut hStep).closed
  refine always_congr_running (I := Shut) ?_ ?_ ?_ events (shut_new nextId world)
  · intro s event hShut hStop
    refine ⟨fun hEnd => ?_, hClosed s event hShut⟩
    cases (step_stopped hStop event).symm.trans hEnd
  · intro s event hShut hStop
    rw [TearsDown, and_iff_left (hClosed s event hShut), ne_eq, step_terminated_iff hShut hStop]
  · exact fun s event s' hShut _ _ hStep => shut_step hShut hStep

/-- The template over a request processor that answers nothing. -/
def silent : SessionHandlerT SessionHandler Unit :=
  SessionHandler.template SessionHandler.silent (fun _ w => w) (fun _ w => w) 65536 65536

/-- A peer that resets its connection ends the server: the read fails and so does `shutdown`. -/
theorem reset_terminates :
    ¬ Always (step silent) (TearsDown silent) (new 0 ())
      [.accepted false {}, .received 0 none { shutdown := true }] := by
  rintro ⟨-, h⟩
  exact (h _ rfl).1.1 rfl

end Kexplorer.Server.TcpServer

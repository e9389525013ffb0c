import Kexplorer.Server.Teardown

/-!
# Setting up a session

`onAccept` puts the session into `m_sessions` before it starts it.  What fails on
the way is that `Session::create` returns null, that `remote_endpoint` or the
constructor of the session handler throws, or that the first read does.  Here
all of these may fail; `onAcceptWith_eq` says that without the first and the
third this is the `onAccept` of the other modules.

`acceptsExactly_iff` says after which of these failures `m_sessions` is as it was.
-/

namespace Kexplorer.Server.TcpServer

open Kexplorer.Lib

variable {η σ : Type}

/-- What fails while a session is set up. -/
structure Setup where
  /-- `Session::create` returns null. -/
  create : Bool := false
  /-- The constructor of the session handler throws. -/
  handler : Bool := false
  calls : Calls := {}

/-- Everything succeeds. -/
def Setup.succeeds (setup : Setup) : Bool :=
  !setup.create && !setup.calls.remoteEndpoint && !setup.handler && !setup.calls.asyncReadSome

section

variable (T : SessionHandlerT η σ) (setup : Setup)

/-- `Session::start`, with a session handler whose constructor may throw. -/
def startWith (self : Nat) (s : TcpServer η σ) : Except Fault (Option UInt32 × TcpServer η σ) := do
  let session ← s.member self
  if setup.calls.remoteEndpoint then
    return (none, s)
  else if setup.handler then
    return (none, s)
  else
    let (handler, world) := T.create session.id s.world
    let s := s.update self fun session => { session with sessionHandler := some handler }
    let s ← read T setup.calls self { s with world }
    let session ← s.member self
    return (some session.id, s)

/-- `TcpServer::onAccept` of an accepted connection. -/
def onAcceptWith (s : TcpServer η σ) : Except Fault (TcpServer η σ) := do
  if s.stop then
    return s
  else
    -- continue accepting clients
    let s := { s with accepting := true }
    if setup.create then
      -- the null pointer goes into `m_sessions`, and `session->start()` follows it
      .error .undefined
    else
      let session := s.objects.length
      let (id, s) ← startWith T setup session s.createSession
      match id with
      -- `removeSession(*id)` with an empty `id`
      | none => .error .undefined
      | some _ => return release T session { s with locals := [] }

/-- No null pointer is followed and no empty optional is read, and in the end `m_sessions` has the
sessions from before, unchanged, and the new one exactly if it was started. -/
def AcceptsExactly (s : TcpServer η σ) : Prop :=
  onAcceptWith T setup s ≠ .error .undefined ∧
    ∀ s', onAcceptWith T setup s = .ok s' →
      s'.sessions =
          (if s.stop = false ∧ setup.succeeds = true then s.sessions ++ [s.objects.length]
          else s.sessions) ∧
        ∀ self ∈ s.sessions, s'.objects[self]? = s.objects[self]?

/-- The server stops; or nothing fails but the first read, and then either the socket cannot be
closed or no session of `m_sessions` has the id of the new one. -/
def FailsCleanly (s : TcpServer η σ) : Prop :=
  s.stop = true ∨
    (setup.create = false ∧ setup.calls.remoteEndpoint = false ∧ setup.handler = false ∧
      (setup.calls.asyncReadSome = true →
        (setup.calls.shutdown = true ∨ setup.calls.close = true) ∨ s.findSession s.nextId = none))

end

variable {T : SessionHandlerT η σ} {setup : Setup}

/-- Without a failure of `create` or of the session handler. -/
theorem onAcceptWith_eq {s : TcpServer η σ} (hStop : s.stop = false)
    (hCreate : setup.create = false) (hHandler : setup.handler = false) :
    onAcceptWith T setup s = onAccept T setup.calls false s := by
  have hStart : startWith T setup = start T setup.calls := by
    funext self s
    unfold startWith start
    simp only [hHandler, Bool.false_eq_true, if_false]
  have hGoesOn : ¬ s.stop = true := by simp [hStop]
  have hCreated : ¬ setup.create = true := by simp [hCreate]
  unfold onAcceptWith
  rw [if_neg hGoesOn, if_neg hCreated, hStart]
  exact (if_neg Bool.false_ne_true).symm

theorem startWith_none {s : TcpServer η σ} {self : Nat} {session : TcpSession η}
    (hMember : s.member self = .ok session)
    (h : setup.calls.remoteEndpoint = true ∨ setup.handler = true) :
    startWith T setup self s = .ok (none, s) := by
  unfold startWith
  rw [hMember]
  rcases h with hEndpoint | hHandler
  · simp only [bind, Except.bind, hEndpoint, if_true]
    rfl
  · simp only [bind, Except.bind, hHandler, if_true, ite_self]
    rfl

/-- The program runs into undefined behaviour if there is no session, no endpoint or no handler. -/
theorem onAcceptWith_undefined {s : TcpServer η σ} (hStop : s.stop = false)
    (h : setup.create = true ∨ setup.calls.remoteEndpoint = true ∨ setup.handler = true) :
    onAcceptWith T setup s = .error .undefined := by
  unfold onAcceptWith
  rw [if_neg (by simp [hStop])]
  dsimp only
  by_cases hCreate : setup.create = true
  · rw [if_pos hCreate]
  · rw [if_neg hCreate]
    have hMember := member_createSession { s with accepting := true }
    dsimp only at hMember
    rw [startWith_none hMember (h.resolve_left hCreate)]
    rfl

/-- The session is started. -/
theorem onAcceptWith_succeeds {s : TcpServer η σ} (hStop : s.stop = false)
    (h : setup.succeeds = true) :
    ∃ s', onAcceptWith T setup s = .ok s' ∧ s'.sessions = (created T s).sessions ∧
      s'.objects = (created T s).objects := by
  simp only [Setup.succeeds, Bool.and_eq_true, Bool.not_eq_true'] at h
  obtain ⟨⟨⟨hCreate, hEndpoint⟩, hHandler⟩, hRead⟩ := h
  obtain ⟨world, hOk⟩ := onAccept_reads T setup.calls s hEndpoint hRead
  exact ⟨_, (onAcceptWith_eq hStop hCreate hHandler).trans hOk, rfl, rfl⟩

/-- The first read fails: the program ends, or the first session with the new id is removed. -/
theorem onAcceptWith_readFails {s : TcpServer η σ} (h : Bounded s) (hStop : s.stop = false)
    (hCreate : setup.create = false) (hEndpoint : setup.calls.remoteEndpoint = false)
    (hHandler : setup.handler = false) (hRead : setup.calls.asyncReadSome = true) :
    (setup.calls.shutdown = true ∨ setup.calls.close = true) ∧
        onAcceptWith T setup s = .error .terminated ∨
      ¬ (setup.calls.shutdown = true ∨ setup.calls.close = true) ∧
        ∃ s', onAcceptWith T setup s = .ok s' ∧
          s'.sessions = (s.sessions ++ [s.objects.length]).erase
            ((s.findSession s.nextId).getD s.objects.length) ∧
          s'.objects = ((created T s).closedAt s.objects.length).objects := by
  have h₀ : Bounded { s with accepting := true } := h
  have hFind : ((created T { s with accepting := true }).closedAt s.objects.length).findSession
      s.nextId = some ((s.findSession s.nextId).getD s.objects.length) := by
    have hCreated := h₀.findSession_created (T := T)
    dsimp only at hCreated
    rw [findSession_closedAt, hCreated]
    show (s.findSession s.nextId).or _ = _
    cases s.findSession s.nextId <;> rfl
  have hSessions := sessions_removeSession (T := T) hFind
  rw [onAcceptWith_eq hStop hCreate hHandler]
  rcases onAccept_refused T setup.calls s hEndpoint hRead with ⟨hThrows, hEnds⟩ | ⟨hNone, world, hOk⟩
  · exact .inl ⟨hThrows, hEnds⟩
  · exact .inr ⟨hNone, _, hOk, hSessions, objects_removeSession _ _⟩

theorem acceptsExactly_of_succeeds {s : TcpServer η σ} (h : Bounded s) (hStop : s.stop = false)
    (hSucceeds : setup.succeeds = true) : AcceptsExactly T setup s := by
  obtain ⟨s', hOk, hSessions, hObjects⟩ := onAcceptWith_succeeds (T := T) hStop hSucceeds
  refine ⟨fun hError => ?_, fun s'' hOk' => ?_⟩
  · cases hOk.symm.trans hError
  · cases hOk.symm.trans hOk'
    rw [if_pos ⟨hStop, hSucceeds⟩, hObjects]
    exact ⟨hSessions, fun self hSelf => h.getElem?_created hSelf⟩

theorem acceptsExactly_readFails {s : TcpServer η σ} (h : Bounded s) (hStop : s.stop = false)
    (hCreate : setup.create = false) (hEndpoint : setup.calls.remoteEndpoint = false)
    (hHandler : setup.handler = false) (hRead : setup.calls.asyncReadSome = true) :
    AcceptsExactly T setup s ↔
      (setup.calls.shutdown = true ∨ setup.calls.close = true) ∨ s.findSession s.nextId = none := by
  have hSucceeds : ¬ (s.stop = false ∧ setup.succeeds = true) := by
    simp [Setup.succeeds, hRead]
  rcases onAcceptWith_readFails (T := T) h hStop hCreate hEndpoint hHandler hRead with
    ⟨hSticks, hEnd⟩ | ⟨hSticks, s', hOk, hSessions, hObjects⟩
  · refine iff_of_true ⟨?_, fun s' hOk => ?_⟩ (.inl hSticks)
    · rw [hEnd]
      simp
    · cases hEnd.symm.trans hOk
  · rw [or_iff_right hSticks]
    have hSame : ∀ self ∈ s.sessions, s'.objects[self]? = s.objects[self]? := by
      intro self hSelf
      rw [hObjects, closedAt, getElem?_update, if_neg (Nat.ne_of_gt (h self hSelf)),
        h.getElem?_created hSelf]
    cases hFind : s.findSession s.nextId with
    | none =>
        refine iff_of_true ⟨fun hError => ?_, fun s'' hOk' => ?_⟩ rfl
        · cases hOk.symm.trans hError
        · cases hOk.symm.trans hOk'
          rw [if_neg hSucceeds, hSessions, hFind, Option.getD_none,
            List.erase_append_right _ h.length_notMem, List.erase_cons_head, List.append_nil]
          exact ⟨rfl, hSame⟩
    | some found =>
        refine iff_of_false (fun hAll => ?_) (by simp)
        -- the new session stays in the place of the older one
        have hLt : found < s.objects.length := h found (List.mem_of_find?_eq_some hFind)
        have hExact := (hAll.2 s' hOk).1
        rw [if_neg hSucceeds, hSessions, hFind, Option.getD_some] at hExact
        refine h.length_notMem ?_
        rw [← hExact, List.mem_erase_of_ne (Nat.ne_of_gt hLt)]
        exact List.mem_append_right _ (List.mem_singleton_self _)

/-- In every reachable state, an accepted connection changes `m_sessions` as it should, whatever
fails, if and only if it fails cleanly. -/
theorem acceptsExactly_iff {nextId : UInt32} {world : σ} {events : List Event}
    {s : TcpServer η σ} (hRun : run (step T) (new nextId world) events = .ok s) (setup : Setup) :
    AcceptsExactly T setup s ↔ FailsCleanly setup s := by
  have hBounded : Bounded s := run_keeps Bounded.step (bounded_new nextId world) hRun
  unfold FailsCleanly
  by_cases hStop : s.stop = true
  · refine iff_of_true ?_ (.inl hStop)
    have hSame : onAcceptWith T setup s = .ok s := by
      unfold onAcceptWith
      rw [if_pos hStop]
      rfl
    rw [AcceptsExactly, hSame]
    refine ⟨fun hError => ?_, fun s' hOk => ?_⟩
    · cases hError
    · cases hOk
      exact ⟨by simp [hStop], fun _ _ => rfl⟩
  · rw [or_iff_right hStop]
    rw [Bool.not_eq_true] at hStop
    by_cases hSetup : setup.create = true ∨ setup.calls.remoteEndpoint = true ∨ setup.handler = true
    · refine iff_of_false (fun hAll => hAll.1 (onAcceptWith_undefined hStop hSetup)) ?_
      rintro ⟨hCreate, hEndpoint, hHandler, -⟩
      simp [hCreate, hEndpoint, hHandler] at hSetup
    · simp only [not_or, Bool.not_eq_true] at hSetup
      obtain ⟨hCreate, hEndpoint, hHandler⟩ := hSetup
      by_cases hRead : setup.calls.asyncReadSome = true
      · rw [acceptsExactly_readFails hBounded hStop hCreate hEndpoint hHandler hRead]
        simp [hCreate, hEndpoint, hHandler, hRead]
      · rw [Bool.not_eq_true] at hRead
        refine iff_of_true (acceptsExactly_of_succeeds hBounded hStop ?_) ?_
        · simp [Setup.succeeds, hCreate, hEndpoint, hHandler, hRead]
        · simp [hCreate, hEndpoint, hHandler, hRead]

/-- With two sessions, the first read of the next one fails. -/
theorem acceptsExactly_iff_third :
    ∃ s, run (step silent) (new 0 ()) [.accepted false {}, .accepted false {}] = .ok s ∧
      s.sessions = [0, 1] ∧
      (AcceptsExactly silent { calls := { asyncReadSome := true } } s ↔
        FailsCleanly { calls := { asyncReadSome := true } } s) :=
  ⟨_, rfl, rfl,
    @acceptsExactly_iff _ _ silent 0 () [.accepted false {}, .accepted false {}] _ rfl _⟩

/-- A client that has gone before its session is started. -/
theorem vanished_client :
    run (step silent) (new 0 ()) [] = .ok (new 0 ()) ∧
      onAcceptWith silent { calls := { remoteEndpoint := true } } (new 0 ()) = .error .undefined ∧
      ¬ AcceptsExactly silent { calls := { remoteEndpoint := true } } (new 0 ()) :=
  ⟨rfl, rfl, fun h => h.1 rfl⟩

end Kexplorer.Server.TcpServer

import Kexplorer.Lib.Run
import Kexplorer.Server.TcpServer
import Mathlib.Data.List.Find

/-!
# What the callbacks of the server do

One equation for each function, over the session it works on, and from them what
a step leaves as it is.
-/

namespace Kexplorer.Server.TcpServer

open Kexplorer.Lib

variable {η σ : Type} {T : SessionHandlerT η σ} {calls : Calls}

/-! ## Members -/

theorem member_eq_ok_iff {s : TcpServer η σ} {self : Nat} {session : TcpSession η} :
    s.member self = .ok session ↔ s.objects[self]? = some session ∧ s.isOwned self = true := by
  unfold member
  split
  · rename_i session' hObject
    rw [hObject]
    split <;> simp_all
  · rename_i hNone
    simp [hNone]

/-- Access to a session succeeds or is undefined. -/
theorem member_cases (s : TcpServer η σ) (self : Nat) :
    (∃ session, s.member self = .ok session) ∨ s.member self = .error .undefined := by
  unfold member
  split
  · split
    · exact .inl ⟨_, rfl⟩
    · exact .inr rfl
  · exact .inr rfl

theorem getElem?_update (s : TcpServer η σ) (self other : Nat) (f : TcpSession η → TcpSession η) :
    (s.update self f).objects[other]? =
      if self = other then s.objects[other]?.map f else s.objects[other]? := by
  rw [update, List.getElem?_modify]
  split <;> simp

/-- A change that changes nothing. -/
theorem update_eq_self {s : TcpServer η σ} {self : Nat} {session : TcpSession η}
    (h : s.objects[self]? = some session) {f : TcpSession η → TcpSession η}
    (hf : f session = session) : s.update self f = s := by
  have hSame : (s.update self f).objects = s.objects := by
    apply List.ext_getElem?
    intro other
    rw [getElem?_update]
    split
    · rename_i hEq
      subst hEq
      rw [h, Option.map_some, hf]
    · rfl
  show { s with objects := (s.update self f).objects } = s
  rw [hSame]

theorem member_update {s : TcpServer η σ} {self : Nat} {session : TcpSession η}
    (h : s.member self = .ok session) (f : TcpSession η → TcpSession η) :
    (s.update self f).member self = .ok (f session) := by
  rw [member_eq_ok_iff] at h ⊢
  exact ⟨by rw [getElem?_update, if_pos rfl, h.1]; rfl, h.2⟩

/-! ## Closing -/

/-- The socket cannot be closed without an exception. -/
def Sticks (calls : Calls) (session : TcpSession η) : Prop :=
  session.isOpen = true ∧ (calls.shutdown = true ∨ calls.close = true)

/-- The state after a `close` that returned. -/
def closedAt (self : Nat) (s : TcpServer η σ) : TcpServer η σ :=
  { s.update self fun session => { session with isOpen := false } with closed := self :: s.closed }

theorem close_of_sticks {s : TcpServer η σ} {self : Nat} {session : TcpSession η}
    (h : s.member self = .ok session) (hSticks : Sticks calls session) :
    close calls self s = .error .terminated := by
  obtain ⟨hOpen, hThrows⟩ := hSticks
  unfold close
  simp only [h, bind, Except.bind, hOpen, if_true]
  split
  · rfl
  · rename_i hShutdown
    rw [if_pos (hThrows.resolve_left hShutdown)]

theorem close_of_not_sticks {s : TcpServer η σ} {self : Nat} {session : TcpSession η}
    (h : s.member self = .ok session) (hSticks : ¬ Sticks calls session) :
    close calls self s = .ok (s.closedAt self) := by
  unfold close
  simp only [h, bind, Except.bind]
  by_cases hOpen : session.isOpen = true
  · rw [if_pos hOpen]
    have hNone : ¬ (calls.shutdown = true ∨ calls.close = true) := fun hThrows =>
      hSticks ⟨hOpen, hThrows⟩
    rw [not_or] at hNone
    rw [if_neg hNone.1, if_neg hNone.2]
    rfl
  · -- the socket was closed before
    have hClosed : session.isOpen = false := by simpa using hOpen
    have hSame := update_eq_self (member_eq_ok_iff.mp h).1
      (f := fun session => { session with isOpen := false }) (by cases session; simp_all)
    rw [if_neg hOpen, closedAt, hSame]
    rfl

theorem member_closedAt {s : TcpServer η σ} {self : Nat} {session : TcpSession η}
    (h : s.member self = .ok session) :
    (s.closedAt self).member self = .ok { session with isOpen := false } :=
  member_update h _

theorem closeAndRemove_of_sticks {s : TcpServer η σ} {self : Nat} {session : TcpSession η}
    (h : s.member self = .ok session) (hSticks : Sticks calls session) :
    closeAndRemove T calls self s = .error .terminated := by
  unfold closeAndRemove
  rw [close_of_sticks h hSticks]
  rfl

theorem closeAndRemove_of_not_sticks {s : TcpServer η σ} {self : Nat} {session : TcpSession η}
    (h : s.member self = .ok session) (hSticks : ¬ Sticks calls session) :
    closeAndRemove T calls self s = .ok (removeSession T session.id (s.closedAt self)) := by
  unfold closeAndRemove
  rw [close_of_not_sticks h hSticks]
  simp only [bind, Except.bind, member_closedAt h]
  rfl

variable (T calls) in
/-- A failing path ends the program or closes and removes the session. -/
theorem closeAndRemove_eq {s : TcpServer η σ} {self : Nat} {session : TcpSession η}
    (h : s.member self = .ok session) :
    closeAndRemove T calls self s = .error .terminated ∧ Sticks calls session ∨
      closeAndRemove T calls self s = .ok (removeSession T session.id (s.closedAt self)) ∧
        ¬ Sticks calls session := by
  by_cases hSticks : Sticks calls session
  · exact .inl ⟨closeAndRemove_of_sticks h hSticks, hSticks⟩
  · exact .inr ⟨closeAndRemove_of_not_sticks h hSticks, hSticks⟩

/-! ## Removing -/

theorem release_eq (self : Nat) (s : TcpServer η σ) :
    ∃ world, release T self s = { s with world } := by
  unfold release
  split
  · exact ⟨s.world, rfl⟩
  · split
    · exact ⟨_, rfl⟩
    · exact ⟨s.world, rfl⟩

/-- Removing takes one session from `m_sessions`, if one has the id. -/
theorem removeSession_eq (id : UInt32) (s : TcpServer η σ) :
    (s.findSession id = none ∧ removeSession T id s = s) ∨
      ∃ self world, s.findSession id = some self ∧
        removeSession T id s = { s with sessions := s.sessions.erase self, world } := by
  unfold removeSession
  cases hFind : s.findSession id with
  | none => exact .inl ⟨rfl, rfl⟩
  | some self =>
      obtain ⟨world, hRelease⟩ :=
        @release_eq _ _ T self { s with sessions := s.sessions.erase self }
      exact .inr ⟨self, world, rfl, hRelease⟩

theorem sessions_removeSession {s : TcpServer η σ} {id : UInt32} {found : Nat}
    (h : s.findSession id = some found) :
    (removeSession T id s).sessions = s.sessions.erase found := by
  rcases removeSession_eq (T := T) id s with ⟨hNone, -⟩ | ⟨self, world, hFind, hEq⟩
  · cases hNone.symm.trans h
  · cases hFind.symm.trans h
    rw [hEq]

theorem findSession_update {s : TcpServer η σ} (self : Nat) {f : TcpSession η → TcpSession η}
    (hf : ∀ session, (f session).id = session.id) (id : UInt32) :
    (s.update self f).findSession id = s.findSession id := by
  unfold findSession
  congr 1
  funext other
  rw [getElem?_update]
  split
  · cases s.objects[other]? <;> simp [hf]
  · rfl

theorem findSession_closedAt (s : TcpServer η σ) (self : Nat) (id : UInt32) :
    (s.closedAt self).findSession id = s.findSession id :=
  findSession_update (s := s) self (f := fun session => { session with isOpen := false })
    (fun _ => rfl) id

@[simp] theorem objects_removeSession (id : UInt32) (s : TcpServer η σ) :
    (removeSession T id s).objects = s.objects := by
  rcases removeSession_eq (T := T) id s with ⟨-, h⟩ | ⟨self, world, -, h⟩ <;> rw [h]

@[simp] theorem locals_removeSession (id : UInt32) (s : TcpServer η σ) :
    (removeSession T id s).locals = s.locals := by
  rcases removeSession_eq (T := T) id s with ⟨-, h⟩ | ⟨self, world, -, h⟩ <;> rw [h]

@[simp] theorem closed_removeSession (id : UInt32) (s : TcpServer η σ) :
    (removeSession T id s).closed = s.closed := by
  rcases removeSession_eq (T := T) id s with ⟨-, h⟩ | ⟨self, world, -, h⟩ <;> rw [h]

@[simp] theorem reads_removeSession (id : UInt32) (s : TcpServer η σ) :
    (removeSession T id s).reads = s.reads := by
  rcases removeSession_eq (T := T) id s with ⟨-, h⟩ | ⟨self, world, -, h⟩ <;> rw [h]

@[simp] theorem writes_removeSession (id : UInt32) (s : TcpServer η σ) :
    (removeSession T id s).writes = s.writes := by
  rcases removeSession_eq (T := T) id s with ⟨-, h⟩ | ⟨self, world, -, h⟩ <;> rw [h]

theorem mem_sessions_removeSession {id : UInt32} {s : TcpServer η σ} {self : Nat}
    (h : self ∈ (removeSession T id s).sessions) : self ∈ s.sessions := by
  rcases removeSession_eq (T := T) id s with ⟨-, hEq⟩ | ⟨other, world, -, hEq⟩ <;> rw [hEq] at h
  · exact h
  · exact List.mem_of_mem_erase h

/-- A local keeps its session. -/
theorem member_removeSession_of_local {id : UInt32} {s : TcpServer η σ} {self : Nat}
    {session : TcpSession η} (hLocal : self ∈ s.locals) (h : s.member self = .ok session) :
    (removeSession T id s).member self = .ok session := by
  rw [member_eq_ok_iff] at h ⊢
  exact ⟨by rw [objects_removeSession, h.1], by simp [isOwned, hLocal]⟩

/-! ## Reading and writing -/

theorem read_eq {s : TcpServer η σ} {self : Nat} {session : TcpSession η}
    (h : s.member self = .ok session) :
    read T calls self s =
      if calls.asyncReadSome then closeAndRemove T calls self s
      else .ok { s with reads := s.reads ++ [self] } := by
  unfold read
  rw [h]
  rfl

/-- A callback that owns the session has it still after starting to read. -/
theorem member_read {s s' : TcpServer η σ} {self : Nat} {session : TcpSession η}
    (h : s.member self = .ok session) (hLocal : self ∈ s.locals)
    (hRead : read T calls self s = .ok s') : ∃ session', s'.member self = .ok session' := by
  rw [read_eq h] at hRead
  by_cases hThrows : calls.asyncReadSome = true
  · rw [if_pos hThrows] at hRead
    rcases closeAndRemove_eq T _ h with ⟨hEq, -⟩ | ⟨hEq, -⟩ <;> rw [hEq] at hRead
    · cases hRead
    · cases hRead
      exact ⟨_, member_removeSession_of_local hLocal (member_closedAt h)⟩
  · rw [if_neg hThrows] at hRead
    cases hRead
    exact ⟨session, h⟩

theorem write_eq {s : TcpServer η σ} {self : Nat} {session : TcpSession η}
    (h : s.member self = .ok session) (buffer : Bytes) :
    write T calls self buffer s =
      if calls.asyncWrite then closeAndRemove T calls self s
      else .ok { s with writes := s.writes ++ [⟨self, buffer, [.self]⟩] } := by
  unfold write
  rw [h]
  rfl

/-- The state after the session handler has processed some bytes. -/
def handled (T : SessionHandlerT η σ) (self : Nat) (handler : η) (data : Bytes)
    (s : TcpServer η σ) : TcpServer η σ :=
  let r := T.process handler data s.world
  { s.update self fun session =>
      { session with
        sessionHandler := some r.2.1
        responses := session.responses ++ [r.1.2] } with
    world := r.2.2 }

theorem member_handled {s : TcpServer η σ} {self : Nat} {session : TcpSession η}
    (h : s.member self = .ok session) (handler : η) (data : Bytes) :
    (handled T self handler data s).member self = .ok
      { session with
        sessionHandler := some (T.process handler data s.world).2.1
        responses := session.responses ++ [(T.process handler data s.world).1.2] } :=
  member_update h _

theorem processRead_eq {s : TcpServer η σ} {self : Nat} {session : TcpSession η}
    (h : s.member self = .ok session) (data : Bytes) :
    processRead T calls self data s =
      match session.sessionHandler with
      | none => .error .undefined
      | some handler =>
          if (T.process handler data s.world).1.1 = .Abort ∨ calls.asyncWrite = true then
            closeAndRemove T calls self (handled T self handler data s)
          else
            .ok { handled T self handler data s with
              writes := s.writes ++ [⟨self, (T.process handler data s.world).1.2, [.self]⟩] } := by
  unfold processRead
  rw [h]
  simp only [bind, Except.bind]
  cases hHandler : session.sessionHandler with
  | none => rfl
  | some handler =>
      have hMember := @member_handled _ _ T _ _ _ h handler data
      rcases hProcess : T.process handler data s.world with ⟨⟨_ | _, response⟩, handler', world⟩
      · have hWrite := @write_eq _ _ T calls _ _ _ hMember response
        simp only [handled, hProcess] at hWrite ⊢
        rw [hWrite]
        simp only [reduceCtorEq, false_or]
        rfl
      · simp only [handled, hProcess, true_or, if_true]

theorem onRead_none {s : TcpServer η σ} {self : Nat} {session : TcpSession η}
    (h : s.member self = .ok session) :
    onRead T calls self none s = closeAndRemove T calls self s := by
  unfold onRead
  rw [h]
  rfl

theorem onRead_some {s : TcpServer η σ} {self : Nat} {session : TcpSession η}
    (h : s.member self = .ok session) (data : Bytes) :
    onRead T calls self (some data) s =
      if calls.asyncReadSome then
        closeAndRemove T calls self s >>= processRead T calls self data
      else
        processRead T calls self data { s with reads := s.reads ++ [self] } := by
  unfold onRead
  rw [h]
  simp only [bind, Except.bind, read_eq h]
  by_cases hRead : calls.asyncReadSome = true
  · rw [if_pos hRead, if_pos hRead]
  · rw [if_neg hRead, if_neg hRead]

theorem onWrite_eq {s : TcpServer η σ} {self : Nat} {session : TcpSession η}
    (h : s.member self = .ok session) (ec : Bool) :
    onWrite T calls self ec s = if ec then closeAndRemove T calls self s else .ok s := by
  unfold onWrite
  rw [h]
  rfl

/-! ## Accepting -/

/-- The session that a connection gets. -/
def fresh (s : TcpServer η σ) : TcpSession η := ⟨s.nextId, none, true, [], []⟩

theorem member_createSession (s : TcpServer η σ) :
    s.createSession.member s.objects.length = .ok s.fresh := by
  rw [member_eq_ok_iff]
  exact ⟨by simp [createSession, fresh], by simp [createSession, isOwned]⟩

/-- The state in which a new session starts to read. -/
def created (T : SessionHandlerT η σ) (s : TcpServer η σ) : TcpServer η σ :=
  { s.createSession.update s.objects.length fun session =>
      { session with sessionHandler := some (T.create s.nextId s.world).1 } with
    world := (T.create s.nextId s.world).2 }

theorem member_created (s : TcpServer η σ) :
    (created T s).member s.objects.length =
      .ok { s.fresh with sessionHandler := some (T.create s.nextId s.world).1 } :=
  member_update (member_createSession s) _

theorem start_eq (s : TcpServer η σ) :
    start T calls s.objects.length s.createSession =
      if calls.remoteEndpoint then .ok (none, s.createSession)
      else do
        let s' ← read T calls s.objects.length (created T s)
        let session ← s'.member s.objects.length
        return (some session.id, s') := by
  unfold start
  rw [member_createSession]
  rfl

/-- Starting a session is undefined without an endpoint, ends the program if the first read fails
and the socket cannot be closed, and otherwise leaves a session that reads or that is gone. -/
theorem onAccept_eq (s : TcpServer η σ) :
    onAccept T calls false s =
      if calls.remoteEndpoint then .error .undefined
      else
        (read T calls s.objects.length (created T { s with accepting := true })).map fun s' =>
          release T s.objects.length { s' with locals := [] } := by
  unfold onAccept
  simp only [Bool.false_eq_true, if_false]
  have hStart := @start_eq _ _ T calls { s with accepting := true }
  dsimp only at hStart
  rw [hStart]
  by_cases hEndpoint : calls.remoteEndpoint = true
  · rw [if_pos hEndpoint, if_pos hEndpoint]
    rfl
  · rw [if_neg hEndpoint, if_neg hEndpoint]
    have hMember := @member_created _ _ T { s with accepting := true }
    dsimp only at hMember
    simp only [bind, Except.bind]
    cases hRead : read T calls s.objects.length (created T { s with accepting := true }) with
    | error fault => rfl
    | ok s' =>
        -- the session lives on in the local
        obtain ⟨session, hOwned⟩ := member_read hMember (List.mem_singleton_self _) hRead
        simp only [hOwned]
        rfl

section

variable (T calls) (s : TcpServer η σ) (hEndpoint : calls.remoteEndpoint = false)

include hEndpoint

/-- The new session reads. -/
theorem onAccept_reads (hRead : calls.asyncReadSome = false) :
    ∃ world, onAccept T calls false s = .ok
      { created T { s with accepting := true } with
        locals := [], reads := s.reads ++ [s.objects.length], world } := by
  obtain ⟨world, hRelease⟩ := @release_eq _ _ T s.objects.length
    { created T { s with accepting := true } with
      locals := [], reads := s.reads ++ [s.objects.length] }
  refine ⟨world, ?_⟩
  rw [onAccept_eq, if_neg (by simp [hEndpoint]),
    read_eq (member_created { s with accepting := true }), if_neg (by simp [hRead])]
  exact congrArg Except.ok hRelease

/-- The first read fails: the program ends, or the first session with the new id is removed. -/
theorem onAccept_refused (hRead : calls.asyncReadSome = true) :
    (calls.shutdown = true ∨ calls.close = true) ∧
        onAccept T calls false s = .error .terminated ∨
      ¬ (calls.shutdown = true ∨ calls.close = true) ∧ ∃ world,
        onAccept T calls false s = .ok
          { removeSession T s.nextId
              ((created T { s with accepting := true }).closedAt s.objects.length) with
            locals := [], world } := by
  have hMember := @member_created _ _ T { s with accepting := true }
  dsimp only at hMember
  rw [onAccept_eq, if_neg (by simp [hEndpoint]), read_eq hMember, if_pos hRead]
  rcases closeAndRemove_eq T calls hMember with ⟨hEq, hSticks⟩ | ⟨hEq, hSticks⟩ <;> rw [hEq]
  · exact .inl ⟨hSticks.2, rfl⟩
  · obtain ⟨world, hRelease⟩ := @release_eq _ _ T s.objects.length
      { removeSession T s.nextId
          ((created T { s with accepting := true }).closedAt s.objects.length) with locals := [] }
    -- a new socket is open
    exact .inr ⟨fun hThrows => hSticks ⟨rfl, hThrows⟩, world, congrArg Except.ok hRelease⟩

end

/-- If the callback returns, the first read of the new session was started or failed cleanly. -/
theorem onAccept_eq_ok {s s' : TcpServer η σ} (h : onAccept T calls false s = .ok s') :
    ∃ started world,
      read T calls s.objects.length (created T { s with accepting := true }) = .ok started ∧
        s' = { started with locals := [], world } := by
  rw [onAccept_eq] at h
  split at h
  · cases h
  · obtain ⟨started, hRead, rfl⟩ := map_eq_ok_iff.mp h
    obtain ⟨world, hRelease⟩ := @release_eq _ _ T s.objects.length { started with locals := [] }
    exact ⟨started, world, hRead, hRelease⟩

/-- A new session leaves the others as they are. -/
theorem getElem?_createSession {s : TcpServer η σ} {self : Nat} {session : TcpSession η}
    (h : s.objects[self]? = some session) : s.createSession.objects[self]? = some session := by
  rw [createSession, List.getElem?_append_left (List.getElem?_eq_some_iff.mp h).1, h]

/-- The sessions of `m_sessions` are objects. -/
def Bounded (s : TcpServer η σ) : Prop := ∀ self ∈ s.sessions, self < s.objects.length

theorem Bounded.length_notMem {s : TcpServer η σ} (h : Bounded s) :
    s.objects.length ∉ s.sessions :=
  fun hMem => Nat.lt_irrefl _ (h _ hMem)

/-- The other sessions are left alone while a session is started. -/
theorem Bounded.getElem?_created {s : TcpServer η σ} (h : Bounded s) {self : Nat}
    (hSelf : self ∈ s.sessions) : (created T s).objects[self]? = s.objects[self]? := by
  have hLt := h self hSelf
  show (s.createSession.update _ _).objects[self]? = _
  rw [getElem?_update, if_neg (Nat.ne_of_gt hLt), createSession, List.getElem?_append_left hLt]

/-- The new session is found under its id unless an older one has it. -/
theorem Bounded.findSession_created {s : TcpServer η σ} (h : Bounded s) :
    (created T s).findSession s.nextId = (s.findSession s.nextId).or (some s.objects.length) := by
  have hNew := (member_eq_ok_iff.mp (@member_created _ _ T s)).1
  unfold findSession
  show (s.sessions ++ [s.objects.length]).find? _ = _
  rw [List.find?_append]
  congr 1
  · exact List.find?_congr fun self hSelf => by rw [h.getElem?_created hSelf]
  · rw [List.find?_singleton, hNew]
    simp [fresh]

/-! ## Sessions that nobody owns -/

theorem closeAndRemove_undefined {s : TcpServer η σ} {self : Nat}
    (h : s.member self = .error .undefined) :
    closeAndRemove T calls self s = .error .undefined := by
  unfold closeAndRemove close
  rw [h]
  rfl

theorem processRead_undefined {s : TcpServer η σ} {self : Nat}
    (h : s.member self = .error .undefined) (data : Bytes) :
    processRead T calls self data s = .error .undefined := by
  unfold processRead
  rw [h]
  rfl

theorem onRead_undefined {s : TcpServer η σ} {self : Nat}
    (h : s.member self = .error .undefined) (data : Option Bytes) :
    onRead T calls self data s = .error .undefined := by
  unfold onRead
  rw [h]
  rfl

theorem onWrite_undefined {s : TcpServer η σ} {self : Nat}
    (h : s.member self = .error .undefined) (ec : Bool) :
    onWrite T calls self ec s = .error .undefined := by
  unfold onWrite
  rw [h]
  rfl

/-! ## Events -/

section

variable {s : TcpServer η σ} (hStop : s.stop = false)

include hStop

theorem step_accepted (ec : Bool) :
    step T s (.accepted ec calls) =
      if s.accepting then onAccept T calls ec { s with accepting := false } else .ok s := by
  unfold step
  rw [if_neg (by simp [hStop])]

theorem step_retry :
    step T s .retry =
      if s.retrying then .ok { s with retrying := false, accepting := true } else .ok s := by
  unfold step
  rw [if_neg (by simp [hStop])]

theorem step_received {index self : Nat} (hRead : s.reads[index]? = some self)
    (data : Option Bytes) :
    step T s (.received index data calls) =
      onRead T calls self data { s with reads := s.reads.eraseIdx index } := by
  unfold step
  rw [if_neg (by simp [hStop])]
  simp only [hRead]

theorem step_received_none {index : Nat} (hRead : s.reads[index]? = none) (data : Option Bytes) :
    step T s (.received index data calls) = .ok s := by
  unfold step
  rw [if_neg (by simp [hStop])]
  simp only [hRead]

/-- A send changes what the peer has received, or nothing. -/
theorem step_sent (index : Nat) (bytes : Bytes) :
    step T s (.sent index bytes) = .ok s ∨
      ∃ w, s.writes[index]? = some w ∧ s.isOwned w.session = true ∧
        step T s (.sent index bytes) =
          .ok { s.update w.session fun session => { session with sent := session.sent ++ bytes } with
            writes := s.writes.set index { w with remaining := w.remaining.drop bytes.length } } := by
  unfold step
  rw [if_neg (by simp [hStop])]
  cases hWrite : s.writes[index]? with
  | none => exact .inl (by simp only [hWrite])
  | some w =>
      simp only [hWrite]
      by_cases hSends : (s.isOwned w.session && Write.canSend w bytes &&
          s.objects[w.session]?.any TcpSession.isOpen) = true
      · refine .inr ⟨w, rfl, ?_, if_pos hSends⟩
        simp only [Bool.and_eq_true] at hSends
        exact hSends.1.1
      · exact .inl (if_neg hSends)

theorem step_wrote {index : Nat} {w : Write} (hWrite : s.writes[index]? = some w) (ec : Bool) :
    step T s (.wrote index ec calls) =
      if ec || w.remaining = [] then
        onWrite T calls w.session ec { s with writes := s.writes.eraseIdx index }
      else .ok s := by
  unfold step
  rw [if_neg (by simp [hStop])]
  simp only [hWrite]

theorem step_wrote_none {index : Nat} (hWrite : s.writes[index]? = none) (ec : Bool) :
    step T s (.wrote index ec calls) = .ok s := by
  unfold step
  rw [if_neg (by simp [hStop])]
  simp only [hWrite]

theorem step_destroyed (throwing : List Nat) :
    step T s (.destroyed throwing) =
      (closeAll throwing s.sessions s).map fun s' => { s' with stop := true } := by
  unfold step
  rw [if_neg (by simp [hStop])]
  rfl

end

theorem step_stopped {s : TcpServer η σ} (hStop : s.stop = true) (event : Event) :
    step T s event = .ok s := by
  unfold step
  rw [if_pos hStop]

/-! ## What callbacks keep -/

/-- Closing all sockets keeps what closing one of them keeps. -/
theorem closeAll_keeps {I : TcpServer η σ → Prop}
    (hKeep : ∀ {s : TcpServer η σ} {self : Nat} {session : TcpSession η}, I s →
      s.member self = .ok session → I (s.closedAt self)) {throwing selves : List Nat} :
    ∀ {s s' : TcpServer η σ}, I s → closeAll throwing selves s = .ok s' → I s' := by
  induction selves with
  | nil =>
      intro s s' h hStep
      cases hStep
      exact h
  | cons self selves ih =>
      intro s s' h hStep
      unfold closeAll at hStep
      rcases member_cases s self with ⟨session, hMember⟩ | hMember
      · by_cases hSticks : Sticks { shutdown := self ∈ throwing } session
        · rw [close_of_sticks hMember hSticks] at hStep
          cases hStep
        · rw [close_of_not_sticks hMember hSticks] at hStep
          exact ih (hKeep h hMember) hStep
      · unfold close at hStep
        rw [hMember] at hStep
        cases hStep

/-- A property of the sessions that each part of a callback keeps, as long as no session is created:
it looks at the sessions alone, and a change of a session's handler and responses does not
matter. -/
structure Settled (T : SessionHandlerT η σ) (I : TcpServer η σ → Prop) : Prop where
  same : ∀ {s s' : TcpServer η σ}, I s → s'.objects = s.objects → s'.sessions = s.sessions →
    s'.closed = s.closed → I s'
  closedAt : ∀ {s : TcpServer η σ} {self : Nat} {session : TcpSession η}, I s →
    s.member self = .ok session → I (s.closedAt self)
  removeSession : ∀ {s : TcpServer η σ}, I s → ∀ id, I (removeSession T id s)
  update : ∀ {s : TcpServer η σ}, I s → ∀ self (f : TcpSession η → TcpSession η),
    (∀ session, (f session).isOpen = session.isOpen) → (∀ session, (f session).id = session.id) →
    (∀ session, (f session).sent = session.sent) → I (s.update self f)

/-- The same with the creation of sessions. -/
structure Kept (T : SessionHandlerT η σ) (I : TcpServer η σ → Prop) : Prop extends Settled T I where
  createSession : ∀ {s : TcpServer η σ}, I s → I s.createSession

/-- The event is a connection that is accepted. -/
def Accepts (s : TcpServer η σ) (event : Event) : Prop :=
  s.stop = false ∧ s.accepting = true ∧ ∃ calls, event = .accepted false calls

section

variable {I : TcpServer η σ → Prop} (hSettled : Settled T I)

include hSettled

theorem Settled.handled {s : TcpServer η σ} (h : I s) (self : Nat) (handler : η) (data : Bytes) :
    I (handled T self handler data s) := by
  let f := fun session : TcpSession η =>
    { session with
      sessionHandler := some (T.process handler data s.world).2.1
      responses := session.responses ++ [(T.process handler data s.world).1.2] }
  have hUpdate := hSettled.update h self f (fun _ => rfl) (fun _ => rfl) fun _ => rfl
  exact hSettled.same hUpdate rfl rfl rfl

theorem Settled.closeAndRemove {s s' : TcpServer η σ} {self : Nat} (h : I s)
    (hStep : closeAndRemove T calls self s = .ok s') : I s' := by
  rcases member_cases s self with ⟨session, hMember⟩ | hMember
  · rcases closeAndRemove_eq T calls hMember with ⟨hEq, -⟩ | ⟨hEq, -⟩
    · rw [hEq] at hStep
      cases hStep
    · rw [hEq] at hStep
      cases hStep
      exact hSettled.removeSession (hSettled.closedAt h hMember) _
  · rw [closeAndRemove_undefined hMember] at hStep
    cases hStep

theorem Settled.processRead {s s' : TcpServer η σ} {self : Nat} {data : Bytes} (h : I s)
    (hStep : processRead T calls self data s = .ok s') : I s' := by
  rcases member_cases s self with ⟨session, hMember⟩ | hMember
  · rw [processRead_eq hMember] at hStep
    cases hHandler : session.sessionHandler with
    | none =>
        rw [hHandler] at hStep
        cases hStep
    | some handler =>
        have hHandled := hSettled.handled h self handler data
        rw [hHandler] at hStep
        dsimp only at hStep
        split at hStep
        · exact hSettled.closeAndRemove hHandled hStep
        · cases hStep
          exact hSettled.same hHandled rfl rfl rfl
  · rw [processRead_undefined hMember] at hStep
    cases hStep

theorem Settled.read {s s' : TcpServer η σ} {self : Nat} {session : TcpSession η} (h : I s)
    (hMember : s.member self = .ok session) (hStep : read T calls self s = .ok s') : I s' := by
  rw [read_eq hMember] at hStep
  split at hStep
  · exact hSettled.closeAndRemove h hStep
  · cases hStep
    exact hSettled.same h rfl rfl rfl

/-- What holds once the session is created still holds in the end. -/
theorem Settled.onAccept {s s' : TcpServer η σ} (h : I (created T { s with accepting := true }))
    (hStep : onAccept T calls false s = .ok s') : I s' := by
  obtain ⟨started, world, hRead, rfl⟩ := onAccept_eq_ok hStep
  exact hSettled.same (hSettled.read h (member_created _) hRead) rfl rfl rfl

theorem Settled.onRead {s s' : TcpServer η σ} {self : Nat} {data : Option Bytes} (h : I s)
    (hStep : onRead T calls self data s = .ok s') : I s' := by
  rcases member_cases s self with ⟨session, hMember⟩ | hMember
  · cases data with
    | none =>
        rw [onRead_none hMember] at hStep
        exact hSettled.closeAndRemove h hStep
    | some data =>
        rw [onRead_some hMember] at hStep
        split at hStep
        · obtain ⟨closed, hClose, hProcess⟩ := bind_eq_ok_iff.mp hStep
          exact hSettled.processRead (hSettled.closeAndRemove h hClose) hProcess
        · refine hSettled.processRead ?_ hStep
          exact hSettled.same h rfl rfl rfl
  · rw [onRead_undefined hMember] at hStep
    cases hStep

theorem Settled.onWrite {s s' : TcpServer η σ} {self : Nat} {ec : Bool} (h : I s)
    (hStep : onWrite T calls self ec s = .ok s') : I s' := by
  rcases member_cases s self with ⟨session, hMember⟩ | hMember
  · rw [onWrite_eq hMember] at hStep
    split at hStep
    · exact hSettled.closeAndRemove h hStep
    · cases hStep
      exact h
  · rw [onWrite_undefined hMember] at hStep
    cases hStep

/-- Every event but a send keeps the property, unless a connection is accepted. -/
theorem Settled.step {s s' : TcpServer η σ} {event : Event} (h : I s)
    (hSent : ∀ index bytes, event = .sent index bytes →
      ∀ self, I (s.update self fun session => { session with sent := session.sent ++ bytes }))
    (hAccepts : ¬ Accepts s event) (hStep : step T s event = .ok s') : I s' := by
  cases hStop : s.stop with
  | true =>
      rw [step_stopped hStop] at hStep
      cases hStep
      exact h
  | false =>
      cases event with
      | accepted ec calls =>
          rw [step_accepted hStop] at hStep
          split at hStep
          · rename_i hAccepting
            cases ec with
            | true =>
                unfold TcpServer.onAccept at hStep
                cases hStep
                exact hSettled.same h rfl rfl rfl
            | false => exact absurd ⟨hStop, hAccepting, calls, rfl⟩ hAccepts
          · cases hStep
            exact h
      | retry =>
          rw [step_retry hStop] at hStep
          split at hStep
          · cases hStep
            exact hSettled.same h rfl rfl rfl
          · cases hStep
            exact h
      | received index data calls =>
          cases hRead : s.reads[index]? with
          | none =>
              rw [step_received_none hStop hRead] at hStep
              cases hStep
              exact h
          | some self =>
              rw [step_received hStop hRead] at hStep
              refine hSettled.onRead ?_ hStep
              exact hSettled.same h rfl rfl rfl
      | sent index bytes =>
          rcases step_sent (T := T) hStop index bytes with hEq | ⟨w, -, -, hEq⟩
          · rw [hEq] at hStep
            cases hStep
            exact h
          · rw [hEq] at hStep
            cases hStep
            exact hSettled.same (hSent index bytes rfl w.session) rfl rfl rfl
      | wrote index ec calls =>
          cases hWrite : s.writes[index]? with
          | none =>
              rw [step_wrote_none hStop hWrite] at hStep
              cases hStep
              exact h
          | some w =>
              rw [step_wrote hStop hWrite] at hStep
              split at hStep
              · refine hSettled.onWrite ?_ hStep
                exact hSettled.same h rfl rfl rfl
              · cases hStep
                exact h
      | destroyed throwing =>
          rw [step_destroyed hStop] at hStep
          obtain ⟨closed, hClose, rfl⟩ := map_eq_ok_iff.mp hStep
          exact hSettled.same (closeAll_keeps hSettled.closedAt h hClose) rfl rfl rfl

end

section

variable {I : TcpServer η σ → Prop} (hKept : Kept T I)

include hKept

theorem Kept.created {s : TcpServer η σ} (h : I s) : I (created T s) := by
  let f := fun session : TcpSession η =>
    { session with sessionHandler := some (T.create s.nextId s.world).1 }
  have hUpdate := hKept.update (hKept.createSession h) s.objects.length f (fun _ => rfl)
    (fun _ => rfl) fun _ => rfl
  exact hKept.same hUpdate rfl rfl rfl

theorem Kept.onAccept {s s' : TcpServer η σ} {ec : Bool} (h : I s)
    (hStep : onAccept T calls ec s = .ok s') : I s' := by
  cases ec with
  | true =>
      unfold TcpServer.onAccept at hStep
      cases hStep
      exact hKept.same h rfl rfl rfl
  | false =>
      refine hKept.toSettled.onAccept (hKept.created ?_) hStep
      exact hKept.same h rfl rfl rfl

/-- Every event but a send keeps the property. -/
theorem Kept.step {s s' : TcpServer η σ} {event : Event} (h : I s)
    (hSent : ∀ index bytes, event = .sent index bytes →
      ∀ self, I (s.update self fun session => { session with sent := session.sent ++ bytes }))
    (hStep : step T s event = .ok s') : I s' := by
  by_cases hAccepts : Accepts s event
  · obtain ⟨hStop, hAccepting, calls, rfl⟩ := hAccepts
    rw [step_accepted hStop, if_pos hAccepting] at hStep
    refine hKept.onAccept ?_ hStep
    exact hKept.same h rfl rfl rfl
  · exact hKept.toSettled.step h hSent hAccepts hStep

end

/-! ## Runs -/

/-- In a run, one condition may be replaced by another that agrees with it while the server exists;
afterwards nothing changes. -/
theorem always_congr_running {P Q : TcpServer η σ → Event → Prop} {I : TcpServer η σ → Prop}
    (hStopped : ∀ s event, I s → s.stop = true → P s event)
    (hAgree : ∀ s event, I s → s.stop = false → (P s event ↔ Q s event))
    (hKeep : ∀ s event s', I s → s.stop = false → Q s event → step T s event = .ok s' → I s')
    (events : List Event) {s : TcpServer η σ} (h : I s) :
    Always (step T) P s events ↔
      Always (step T) (fun s event => s.stop = true ∨ Q s event) s events := by
  refine always_congr ?_ ?_ events h
  · intro s event h
    cases hStop : s.stop with
    | true => exact iff_of_true (hStopped s event h hStop) (.inl rfl)
    | false =>
        rw [hAgree s event h hStop]
        exact (or_iff_right Bool.false_ne_true).symm
  · intro s event s' h hQ hStep
    cases hStop : s.stop with
    | true =>
        cases (step_stopped hStop event).symm.trans hStep
        exact h
    | false =>
        rw [hStop] at hQ
        exact hKeep s event s' h hStop (hQ.resolve_left Bool.false_ne_true) hStep

/-! ## The sessions are objects -/

theorem Bounded.update {s : TcpServer η σ} (h : Bounded s) (self : Nat)
    (f : TcpSession η → TcpSession η) : Bounded (s.update self f) := by
  intro other hOther
  show other < (List.modify _ _ _).length
  rw [List.length_modify]
  exact h other hOther

theorem kept_bounded : Kept T (Bounded : TcpServer η σ → Prop) where
  same h hObjects hSessions _ := by
    unfold Bounded
    rw [hObjects, hSessions]
    exact h
  closedAt h _ := h.update _ fun session => { session with isOpen := false }
  removeSession h id self hSelf := by
    rw [objects_removeSession]
    exact h self (mem_sessions_removeSession hSelf)
  update h self f _ _ _ := h.update self f
  createSession h self hSelf := by
    rw [createSession, List.length_append]
    rcases List.mem_append.mp hSelf with hSelf | hSelf
    · exact Nat.lt_add_right _ (h self hSelf)
    · rw [List.mem_singleton.mp hSelf]
      exact Nat.lt_succ_self _

theorem bounded_new (nextId : UInt32) (world : σ) : Bounded (new nextId world : TcpServer η σ) :=
  List.forall_mem_nil _

/-- Every event keeps the sessions of `m_sessions` among the objects. -/
theorem Bounded.step {s s' : TcpServer η σ} {event : Event} (h : Bounded s)
    (hStep : step T s event = .ok s') : Bounded s' :=
  kept_bounded.step h (fun _ _ _ self => h.update self _) hStep

end Kexplorer.Server.TcpServer

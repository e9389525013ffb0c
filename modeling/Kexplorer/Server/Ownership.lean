import Kexplorer.Server.Teardown
import Mathlib.Data.List.Find
import Mathlib.Data.List.Perm.Basic

/-!
# Who owns the session of a pending operation

The handlers of pending operations know their session by its address only.  As
long as each session of `m_sessions` has exactly one pending read, and no session
is removed that has another operation pending, every handler finds its session.
`Keeps` says which events preserve this.
-/

namespace Kexplorer.Server.TcpServer

open Kexplorer.Lib

variable {η σ : Type} {T : SessionHandlerT η σ} {calls : Calls}

/-- The session of every pending operation is owned. -/
def Backed (s : TcpServer η σ) : Prop :=
  (∀ self ∈ s.reads, s.isOwned self = true) ∧ ∀ w ∈ s.writes, s.isOwned w.session = true

/-- Between two events: no callback runs, each session of `m_sessions` was started and has exactly
one pending read, and the pending writes belong to such sessions. -/
structure Linked (s : TcpServer η σ) : Prop where
  locals : s.locals = []
  sessions : ∀ self ∈ s.sessions, ∃ session handler, s.objects[self]? = some session ∧
    session.sessionHandler = some handler
  nodup : s.sessions.Nodup
  reads : s.reads.Perm s.sessions
  writes : ∀ w ∈ s.writes, w.session ∈ s.sessions

theorem linked_new (nextId : UInt32) (world : σ) : Linked (new nextId world : TcpServer η σ) :=
  ⟨rfl, List.forall_mem_nil _, List.nodup_nil, .refl _, List.forall_mem_nil _⟩

theorem isOwned_of_mem {s : TcpServer η σ} {self : Nat} (h : self ∈ s.sessions) :
    s.isOwned self = true := by
  simp [isOwned, h]

theorem Linked.backed {s : TcpServer η σ} (h : Linked s) : Backed s :=
  ⟨fun _ hSelf => isOwned_of_mem (h.reads.subset hSelf),
    fun w hWrite => isOwned_of_mem (h.writes w hWrite)⟩

theorem Linked.bounded {s : TcpServer η σ} (h : Linked s) : Bounded s := by
  intro self hSelf
  obtain ⟨session, -, hObject, -⟩ := h.sessions self hSelf
  exact (List.getElem?_eq_some_iff.mp hObject).1

/-- Access to a session of `m_sessions` succeeds. -/
theorem Linked.member {s : TcpServer η σ} (h : Linked s) {self : Nat} (hSelf : self ∈ s.sessions) :
    ∃ session handler, s.member self = .ok session ∧ session.sessionHandler = some handler := by
  obtain ⟨session, handler, hObject, hHandler⟩ := h.sessions self hSelf
  exact ⟨session, handler, member_eq_ok_iff.mpr ⟨hObject, isOwned_of_mem hSelf⟩, hHandler⟩

/-- A change of a session that keeps its handler is of no account here. -/
theorem Linked.update {s : TcpServer η σ} (h : Linked s) (self : Nat)
    {f : TcpSession η → TcpSession η}
    (hf : ∀ session handler, session.sessionHandler = some handler →
      ∃ handler', (f session).sessionHandler = some handler') : Linked (s.update self f) where
  locals := h.locals
  sessions := by
    intro other hOther
    obtain ⟨session, handler, hObject, hHandler⟩ := h.sessions other hOther
    rw [getElem?_update, hObject]
    split
    · obtain ⟨handler', hHandler'⟩ := hf session handler hHandler
      exact ⟨f session, handler', rfl, hHandler'⟩
    · exact ⟨session, handler, rfl, hHandler⟩
  nodup := h.nodup
  reads := h.reads
  writes := h.writes

theorem Linked.closedAt {s : TcpServer η σ} (h : Linked s) (self : Nat) : Linked (s.closedAt self) :=
  let hUpdate := h.update self (f := fun session => { session with isOpen := false })
    fun _ handler hHandler => ⟨handler, hHandler⟩
  ⟨hUpdate.locals, hUpdate.sessions, hUpdate.nodup, hUpdate.reads, hUpdate.writes⟩

/-! ## The session that is removed -/

theorem mem_of_findSession {s : TcpServer η σ} {id : UInt32} {self : Nat}
    (h : s.findSession id = some self) : self ∈ s.sessions :=
  List.mem_of_find?_eq_some h

/-- Some session is found under the id of each session of `m_sessions`: the session itself, or an
earlier one with the same id. -/
theorem exists_findSession {s : TcpServer η σ} {self : Nat} {session : TcpSession η}
    (hSelf : self ∈ s.sessions) (hObject : s.objects[self]? = some session) :
    ∃ found, s.findSession session.id = some found := by
  rw [← Option.isSome_iff_exists]
  unfold findSession
  rw [List.find?_isSome]
  exact ⟨self, hSelf, by simp [hObject]⟩

/-- An operation of the removed session is left without an owner. -/
theorem not_backed_of_pending {s : TcpServer η σ} (self : Nat) (hLocals : s.locals = [])
    (hGone : self ∉ s.sessions) (hPending : self ∈ s.reads ∨ ∃ w ∈ s.writes, w.session = self) :
    ¬ Backed s := by
  have hNot : s.isOwned self ≠ true := by simp [isOwned, hLocals, hGone]
  rintro ⟨hReads, hWrites⟩
  rcases hPending with hRead | ⟨w, hWrite, rfl⟩
  · exact hNot (hReads self hRead)
  · exact hNot (hWrites w hWrite)

theorem not_mem_removeSession {s : TcpServer η σ} {id : UInt32} {found : Nat}
    (hNodup : s.sessions.Nodup) (h : s.findSession id = some found) :
    found ∉ (removeSession T id s).sessions := by
  rw [sessions_removeSession h, hNodup.mem_erase_iff]
  exact fun hMem => hMem.1 rfl

theorem member_removeSession {s : TcpServer η σ} {id : UInt32} {found : Nat}
    (hLocals : s.locals = []) (hNodup : s.sessions.Nodup) (h : s.findSession id = some found) :
    (removeSession T id s).member found = .error .undefined := by
  refine (member_cases _ _).resolve_left ?_
  rintro ⟨session, hMember⟩
  have hOwned := (member_eq_ok_iff.mp hMember).2
  have hGone := not_mem_removeSession (T := T) hNodup h
  simp [isOwned, hGone, hLocals] at hOwned

/-- While every session reads, removing any session leaves its read without an owner. -/
theorem closeAndRemove_dangles {s : TcpServer η σ} {self : Nat} {session : TcpSession η}
    (h : Linked s) (hSelf : self ∈ s.sessions) (hMember : s.member self = .ok session)
    (hSticks : ¬ Sticks calls session) :
    ∃ s', closeAndRemove T calls self s = .ok s' ∧ ¬ Backed s' := by
  obtain ⟨found, hFound⟩ := exists_findSession hSelf (member_eq_ok_iff.mp hMember).1
  have hPending : found ∈ s.reads := h.reads.symm.subset (mem_of_findSession hFound)
  rw [← findSession_closedAt s self] at hFound
  refine ⟨_, closeAndRemove_of_not_sticks hMember hSticks, ?_⟩
  refine not_backed_of_pending found ?_ (not_mem_removeSession h.nodup hFound) (.inl ?_)
  · rw [locals_removeSession]
    exact h.locals
  · rw [reads_removeSession]
    exact hPending

/-! ## One event -/

/-- The event does not run into a session that is gone, and leaves no operation of such a session
pending. -/
def Safe (T : SessionHandlerT η σ) (s : TcpServer η σ) (event : Event) : Prop :=
  step T s event ≠ .error .undefined ∧ ∀ s', step T s event = .ok s' → Backed s'

/-- The event removes no session, or one without other pending operations. -/
def Keeps (T : SessionHandlerT η σ) (s : TcpServer η σ) : Event → Prop
  | .accepted ec calls =>
      s.accepting = true → ec = false → calls.remoteEndpoint = false ∧
        (calls.asyncReadSome = true → s.findSession s.nextId = none)
  | .received index none _ =>
      ∀ self session, s.reads[index]? = some self → s.objects[self]? = some session →
        s.findSession session.id = some self ∧ ∀ w ∈ s.writes, w.session ≠ self
  | .received index (some data) calls =>
      ∀ self session, s.reads[index]? = some self → s.objects[self]? = some session →
        calls.asyncReadSome = false ∧ calls.asyncWrite = false ∧
          ∀ handler, session.sessionHandler = some handler →
            (T.process handler data s.world).1.1 = .Continue
  | .wrote index ec _ => ∀ w, s.writes[index]? = some w → ec = false
  | _ => True

/-- How an event can end: with the program, in undefined behaviour, or in a state that is linked if
and backed only if the event `Keeps` what it needs. -/
def Ends (T : SessionHandlerT η σ) (s : TcpServer η σ) (event : Event) : Prop :=
  step T s event = .error .terminated ∨
    step T s event = .error .undefined ∧ ¬ Keeps T s event ∨
      ∃ s', step T s event = .ok s' ∧ (Keeps T s event → Linked s') ∧
        (¬ Keeps T s event → ¬ Backed s')

theorem Ends.linked {s s' : TcpServer η σ} {event : Event} (hStep : step T s event = .ok s')
    (hKeeps : Keeps T s event) (h : Linked s') : Ends T s event :=
  .inr (.inr ⟨s', hStep, fun _ => h, fun hNot => absurd hKeeps hNot⟩)

theorem Ends.not_backed {s s' : TcpServer η σ} {event : Event} (hStep : step T s event = .ok s')
    (hKeeps : ¬ Keeps T s event) (h : ¬ Backed s') : Ends T s event :=
  .inr (.inr ⟨s', hStep, fun hNot => absurd hNot hKeeps, fun _ => h⟩)

/-- The read of a session is taken out of the pending ones. -/
private theorem reads_eraseIdx {s : TcpServer η σ} (h : Linked s) {index self : Nat}
    (hRead : s.reads[index]? = some self) : (self :: s.reads.eraseIdx index).Perm s.sessions := by
  obtain ⟨hIndex, hSelf⟩ := List.getElem?_eq_some_iff.mp hRead
  have hPerm := List.getElem_cons_eraseIdx_perm hIndex
  rw [hSelf] at hPerm
  exact hPerm.trans h.reads

/-- What remains is linked when a session is removed whose only pending operation was taken out. -/
private theorem linked_erase {s s' : TcpServer η σ} {self : Nat}
    (hSessions : ∀ other ∈ s.sessions, ∃ session handler, s.objects[other]? = some session ∧
      session.sessionHandler = some handler)
    (hNodup : s.sessions.Nodup) (hReads : (self :: s.reads).Perm s.sessions)
    (hWrites : ∀ w ∈ s.writes, w.session ∈ s.sessions ∧ w.session ≠ self)
    (hLocals' : s'.locals = []) (hObjects' : s'.objects = s.objects)
    (hSessions' : s'.sessions = s.sessions.erase self) (hReads' : s'.reads = s.reads)
    (hWrites' : s'.writes = s.writes) : Linked s' where
  locals := hLocals'
  sessions := by
    rw [hSessions', hObjects']
    exact fun other hOther => hSessions other (List.mem_of_mem_erase hOther)
  nodup := by
    rw [hSessions']
    exact hNodup.erase self
  reads := by
    rw [hSessions', hReads']
    have hErase := List.perm_cons_erase (hReads.subset (List.mem_cons_self ..))
    exact (hReads.trans hErase).cons_inv
  writes := by
    rw [hSessions', hWrites']
    intro w hWrite
    exact hNodup.mem_erase_iff.mpr ⟨(hWrites w hWrite).2, (hWrites w hWrite).1⟩

/-- A read that fails takes its session with it, unless another operation or another session is hit. -/
theorem ends_received_none {s : TcpServer η σ} (h : Linked s) (hStop : s.stop = false)
    {index self : Nat} (hRead : s.reads[index]? = some self) (calls : Calls) :
    Ends T s (.received index none calls) := by
  have hPerm := reads_eraseIdx h hRead
  have hSelf : self ∈ s.sessions := hPerm.subset (List.mem_cons_self ..)
  obtain ⟨session, handler, hMember, hHandler⟩ := h.member hSelf
  have hObject := (member_eq_ok_iff.mp hMember).1
  let s₁ : TcpServer η σ := { s with reads := s.reads.eraseIdx index }
  have hMember₁ : s₁.member self = .ok session := hMember
  have hStep := @step_received _ _ T calls _ hStop _ _ hRead none
  rw [onRead_none hMember₁] at hStep
  by_cases hSticks : Sticks calls session
  · exact .inl (hStep.trans (closeAndRemove_of_sticks hMember₁ hSticks))
  · refine .inr (.inr ⟨_, hStep.trans (closeAndRemove_of_not_sticks hMember₁ hSticks), ?_, ?_⟩)
    · intro hKeeps
      obtain ⟨hFound, hWrites⟩ := hKeeps self session hRead hObject
      have hClosed := h.closedAt self
      have hFound₁ : (s₁.closedAt self).findSession session.id = some self := by
        rw [findSession_closedAt]
        exact hFound
      refine @linked_erase _ _ (s₁.closedAt self) _ self hClosed.sessions hClosed.nodup hPerm
        (fun w hWrite => ⟨h.writes w hWrite, hWrites w hWrite⟩) ?_ ?_
        (sessions_removeSession hFound₁) ?_ ?_
      · rw [locals_removeSession]
        exact h.locals
      · rw [objects_removeSession]
      · rw [reads_removeSession]
      · rw [writes_removeSession]
    · intro hKeeps
      obtain ⟨found, hFound⟩ := exists_findSession hSelf hObject
      have hFound₁ : (s₁.closedAt self).findSession session.id = some found := by
        rw [findSession_closedAt]
        exact hFound
      refine not_backed_of_pending found ?_
        (not_mem_removeSession (s := s₁.closedAt self) h.nodup hFound₁) ?_
      · rw [locals_removeSession]
        exact h.locals
      · rw [reads_removeSession, writes_removeSession]
        by_cases hOther : found = self
        · -- a write of the session is pending
          subst hOther
          by_contra hNone
          rw [not_or] at hNone
          refine hKeeps ?_
          intro self' session' hRead' hObject'
          cases hRead.symm.trans hRead'
          cases hObject.symm.trans hObject'
          exact ⟨hFound, fun w hWrite hEq => hNone.2 ⟨w, hWrite, hEq⟩⟩
        · -- another session is removed
          refine .inl ?_
          have hMem := hPerm.symm.subset (mem_of_findSession hFound)
          exact (List.mem_cons.mp hMem).resolve_left hOther

/-- Processing only adds operations, and only removes sessions. -/
private theorem processRead_monotone {s s' : TcpServer η σ} {self : Nat} {data : Bytes}
    (h : processRead T calls self data s = .ok s') :
    s'.reads = s.reads ∧ s'.locals = s.locals ∧ ∀ other ∈ s'.sessions, other ∈ s.sessions := by
  rcases member_cases s self with ⟨session, hMember⟩ | hMember
  · rw [processRead_eq hMember] at h
    cases hHandler : session.sessionHandler with
    | none =>
        rw [hHandler] at h
        cases h
    | some handler =>
        rw [hHandler] at h
        dsimp only at h
        split at h
        · have hHandled := @member_handled _ _ T _ _ _ hMember handler data
          rcases closeAndRemove_eq T calls hHandled with ⟨hEq, -⟩ | ⟨hEq, -⟩
          · rw [hEq] at h
            cases h
          · rw [hEq] at h
            cases h
            rw [reads_removeSession, locals_removeSession]
            refine ⟨rfl, rfl, fun other hOther => ?_⟩
            exact mem_sessions_removeSession (s := (handled T self handler data s).closedAt self)
              hOther
        · cases h
          exact ⟨rfl, rfl, fun _ => id⟩
  · rw [processRead_undefined hMember] at h
    cases h

/-- When the next read cannot be started, the session is removed before its request is processed. -/
theorem ends_received_readFails {s : TcpServer η σ} (h : Linked s) (hStop : s.stop = false)
    {index self : Nat} (hRead : s.reads[index]? = some self) (data : Bytes) {calls : Calls}
    (hFails : calls.asyncReadSome = true) : Ends T s (.received index (some data) calls) := by
  have hPerm := reads_eraseIdx h hRead
  have hSelf : self ∈ s.sessions := hPerm.subset (List.mem_cons_self ..)
  obtain ⟨session, handler, hMember, hHandler⟩ := h.member hSelf
  have hObject := (member_eq_ok_iff.mp hMember).1
  have hKeeps : ¬ Keeps T s (.received index (some data) calls) := fun hKeeps =>
    Bool.false_ne_true ((hKeeps self session hRead hObject).1.symm.trans hFails)
  let s₁ : TcpServer η σ := { s with reads := s.reads.eraseIdx index }
  have hMember₁ : s₁.member self = .ok session := hMember
  obtain ⟨found, hFound⟩ := exists_findSession hSelf hObject
  have hFound₁ : (s₁.closedAt self).findSession session.id = some found := by
    rw [findSession_closedAt]
    exact hFound
  have hGone := not_mem_removeSession (T := T) (s := s₁.closedAt self) h.nodup hFound₁
  have hStep := @step_received _ _ T calls _ hStop _ _ hRead (some data)
  rw [onRead_some hMember₁, if_pos hFails] at hStep
  by_cases hSticks : Sticks calls session
  · rw [closeAndRemove_of_sticks hMember₁ hSticks] at hStep
    exact .inl hStep
  · rw [closeAndRemove_of_not_sticks hMember₁ hSticks] at hStep
    change _ = processRead T calls self data (removeSession T session.id (s₁.closedAt self)) at hStep
    by_cases hOther : found = self
    · -- the session that goes on is the one that was removed
      subst hOther
      have hUndefined := member_removeSession (T := T) (s := s₁.closedAt found) h.locals h.nodup hFound₁
      exact .inr (.inl ⟨hStep.trans (processRead_undefined hUndefined data), hKeeps⟩)
    · -- another session with a pending read was removed
      cases hResult : processRead T calls self data
          (removeSession T session.id (s₁.closedAt self)) with
      | error fault =>
          cases fault with
          | terminated => exact .inl (hStep.trans hResult)
          | undefined => exact .inr (.inl ⟨hStep.trans hResult, hKeeps⟩)
      | ok s' =>
          obtain ⟨hReads, hLocals, hSessions⟩ := processRead_monotone hResult
          rw [reads_removeSession] at hReads
          rw [locals_removeSession] at hLocals
          refine .not_backed (hStep.trans hResult) hKeeps (not_backed_of_pending found
            (hLocals.trans h.locals) (fun hMem => hGone (hSessions _ hMem)) (.inl ?_))
          rw [hReads]
          have hMem := hPerm.symm.subset (mem_of_findSession hFound)
          exact (List.mem_cons.mp hMem).resolve_left hOther

/-- A request that is answered keeps its session; any other end of it removes a session that reads. -/
theorem ends_received_some {s : TcpServer η σ} (h : Linked s) (hStop : s.stop = false)
    {index self : Nat} (hRead : s.reads[index]? = some self) (data : Bytes) {calls : Calls}
    (hReads : calls.asyncReadSome = false) : Ends T s (.received index (some data) calls) := by
  have hPerm := reads_eraseIdx h hRead
  have hSelf : self ∈ s.sessions := hPerm.subset (List.mem_cons_self ..)
  obtain ⟨session, handler, hMember, hHandler⟩ := h.member hSelf
  have hObject := (member_eq_ok_iff.mp hMember).1
  let s₂ : TcpServer η σ := { s with reads := s.reads.eraseIdx index ++ [self] }
  have hLinked₂ : Linked s₂ :=
    ⟨h.locals, h.sessions, h.nodup, (List.perm_append_singleton _ _).trans hPerm, h.writes⟩
  have hMember₂ : s₂.member self = .ok session := hMember
  have hHandled := @member_handled _ _ T _ _ _ hMember₂ handler data
  have hLinked : Linked (handled T self handler data s₂) :=
    let hUpdate := hLinked₂.update self (f := fun session =>
      { session with
        sessionHandler := some (T.process handler data s.world).2.1
        responses := session.responses ++ [(T.process handler data s.world).1.2] })
      fun _ _ _ => ⟨_, rfl⟩
    ⟨hUpdate.locals, hUpdate.sessions, hUpdate.nodup, hUpdate.reads, hUpdate.writes⟩
  have hStep := @step_received _ _ T calls _ hStop _ _ hRead (some data)
  rw [@onRead_some _ _ _ _ { s with reads := s.reads.eraseIdx index } _ _ hMember,
    if_neg (by simp [hReads])] at hStep
  change _ = processRead T calls self data s₂ at hStep
  rw [processRead_eq hMember₂, hHandler] at hStep
  dsimp only at hStep
  by_cases hFails : (T.process handler data s.world).1.1 = .Abort ∨ calls.asyncWrite = true
  · have hKeeps : ¬ Keeps T s (.received index (some data) calls) := by
      intro hKeeps
      obtain ⟨-, hWrites, hContinue⟩ := hKeeps self session hRead hObject
      rcases hFails with hAbort | hThrows
      · cases (hContinue handler hHandler).symm.trans hAbort
      · exact Bool.false_ne_true (hWrites.symm.trans hThrows)
    rw [if_pos hFails] at hStep
    by_cases hSticks : Sticks calls session
    · exact .inl (hStep.trans (closeAndRemove_of_sticks hHandled hSticks))
    · obtain ⟨s', hClose, hDangles⟩ := closeAndRemove_dangles (T := T) hLinked hSelf hHandled hSticks
      exact .not_backed (hStep.trans hClose) hKeeps hDangles
  · rw [if_neg hFails] at hStep
    rw [not_or] at hFails
    refine .linked hStep ?_ ⟨hLinked.locals, hLinked.sessions, hLinked.nodup, hLinked.reads, ?_⟩
    · intro self' session' hRead' hObject'
      cases hRead.symm.trans hRead'
      cases hObject.symm.trans hObject'
      refine ⟨hReads, by simpa using hFails.2, fun handler' hHandler' => ?_⟩
      cases hHandler.symm.trans hHandler'
      cases hResult : (T.process handler data s.world).1.1 with
      | Continue => rfl
      | Abort => exact absurd hResult hFails.1
    · intro w hWrite
      rcases List.mem_append.mp hWrite with hWrite | hWrite
      · exact h.writes w hWrite
      · rw [List.mem_singleton.mp hWrite]
        exact hSelf

theorem ends_wrote {s : TcpServer η σ} (h : Linked s) (hStop : s.stop = false) (index : Nat)
    (ec : Bool) (calls : Calls) : Ends T s (.wrote index ec calls) := by
  cases hWrite : s.writes[index]? with
  | none =>
      refine .linked (step_wrote_none hStop hWrite ec) ?_ h
      intro w hWrite'
      cases hWrite.symm.trans hWrite'
  | some w =>
      have hSelf : w.session ∈ s.sessions := h.writes w (List.mem_of_getElem? hWrite)
      obtain ⟨session, handler, hMember, -⟩ := h.member hSelf
      let s₁ : TcpServer η σ := { s with writes := s.writes.eraseIdx index }
      have hLinked₁ : Linked s₁ :=
        ⟨h.locals, h.sessions, h.nodup, h.reads, fun w hW => h.writes w (List.mem_of_mem_eraseIdx hW)⟩
      have hMember₁ : s₁.member w.session = .ok session := hMember
      have hStep := @step_wrote _ _ T calls _ hStop _ _ hWrite ec
      rw [onWrite_eq hMember₁] at hStep
      cases ec with
      | true =>
          have hKeeps : ¬ Keeps T s (.wrote index true calls) := fun hKeeps => by
            cases hKeeps w hWrite
          simp only [Bool.true_or, if_true] at hStep
          by_cases hSticks : Sticks calls session
          · exact .inl (hStep.trans (closeAndRemove_of_sticks hMember₁ hSticks))
          · obtain ⟨s', hClose, hDangles⟩ :=
              closeAndRemove_dangles (T := T) hLinked₁ hSelf hMember₁ hSticks
            exact .not_backed (hStep.trans hClose) hKeeps hDangles
      | false =>
          have hKeeps : Keeps T s (.wrote index false calls) := fun _ _ => rfl
          simp only [Bool.false_or, Bool.false_eq_true, if_false] at hStep
          by_cases hEnds : w.remaining = []
          · exact .linked (hStep.trans (if_pos (by simpa using hEnds))) hKeeps hLinked₁
          · exact .linked (hStep.trans (if_neg (by simpa using hEnds))) hKeeps h

theorem ends_sent {s : TcpServer η σ} (h : Linked s) (hStop : s.stop = false) (index : Nat)
    (bytes : Bytes) : Ends T s (.sent index bytes) := by
  rcases step_sent (T := T) hStop index bytes with hStep | ⟨w, hWrite, -, hStep⟩
  · exact .linked hStep trivial h
  · have hUpdate := h.update w.session (f := fun session => { session with sent := session.sent ++ bytes })
      fun _ handler hHandler => ⟨handler, hHandler⟩
    refine .linked hStep trivial ⟨hUpdate.locals, hUpdate.sessions, hUpdate.nodup, hUpdate.reads, ?_⟩
    intro w' hW
    rcases List.mem_or_eq_of_mem_set hW with hW | rfl
    · exact h.writes w' hW
    · exact h.writes w (List.mem_of_getElem? hWrite)

/-- Closing sessions keeps all of them. -/
theorem closeAll_linked (throwing : List Nat) {selves : List Nat} :
    ∀ {s : TcpServer η σ}, Linked s → (∀ self ∈ selves, self ∈ s.sessions) →
      closeAll throwing selves s = .error .terminated ∨
        ∃ s', closeAll throwing selves s = .ok s' ∧ Linked s' := by
  induction selves with
  | nil => exact fun {s} h _ => .inr ⟨s, rfl, h⟩
  | cons self selves ih =>
      intro s h hSessions
      obtain ⟨session, handler, hMember, -⟩ := h.member (hSessions self (List.mem_cons_self ..))
      unfold closeAll
      by_cases hSticks : Sticks { shutdown := self ∈ throwing } session
      · rw [close_of_sticks hMember hSticks]
        exact .inl rfl
      · rw [close_of_not_sticks hMember hSticks]
        exact ih (h.closedAt self) fun other hOther => hSessions other (List.mem_cons_of_mem _ hOther)

theorem ends_destroyed {s : TcpServer η σ} (h : Linked s) (hStop : s.stop = false)
    (throwing : List Nat) : Ends T s (.destroyed throwing) := by
  have hStep := @step_destroyed _ _ T _ hStop throwing
  rcases closeAll_linked throwing h fun _ hSelf => hSelf with hClose | ⟨s', hClose, h'⟩
  · rw [hClose] at hStep
    exact .inl hStep
  · rw [hClose] at hStep
    exact .linked hStep trivial ⟨h'.locals, h'.sessions, h'.nodup, h'.reads, h'.writes⟩

/-! ## Accepting -/

section

variable {s : TcpServer η σ} (h : Linked s)

include h

private theorem nodup_created : (s.sessions ++ [s.objects.length]).Nodup := by
  have hNew := h.bounded.length_notMem
  rw [List.nodup_append]
  refine ⟨h.nodup, List.pairwise_singleton _ _, ?_⟩
  intro self hSelf other hOther hEq
  rw [List.mem_singleton.mp hOther] at hEq
  exact hNew (hEq ▸ hSelf)

private theorem sessions_created : ∀ self ∈ (created T s).sessions, ∃ session handler,
    (created T s).objects[self]? = some session ∧ session.sessionHandler = some handler := by
  intro self hSelf
  rcases List.mem_append.mp hSelf with hSelf | hSelf
  · obtain ⟨session, handler, hObject, hHandler⟩ := h.sessions self hSelf
    refine ⟨session, handler, ?_, hHandler⟩
    rw [h.bounded.getElem?_created hSelf, hObject]
  · rw [List.mem_singleton.mp hSelf]
    exact ⟨_, _, (member_eq_ok_iff.mp (member_created s)).1, rfl⟩

/-- A session that has started to read. -/
private theorem linked_started (world : σ) :
    Linked { created T s with locals := [], reads := s.reads ++ [s.objects.length], world } :=
  ⟨rfl, sessions_created h, nodup_created h, h.reads.append_right _,
    fun w hWrite => List.mem_append_left _ (h.writes w hWrite)⟩

/-- A session whose first read fails is gone, unless an older one is removed in its place. -/
private theorem linked_refused (hFree : s.findSession s.nextId = none) (world : σ) :
    Linked { removeSession T s.nextId ((created T s).closedAt s.objects.length) with
      locals := [], world } := by
  have hFound : ((created T s).closedAt s.objects.length).findSession s.nextId =
      some s.objects.length := by
    rw [findSession_closedAt, h.bounded.findSession_created, hFree, Option.none_or]
  have hClosed : ∀ self ∈ (created T s).sessions, ∃ session handler,
      ((created T s).closedAt s.objects.length).objects[self]? = some session ∧
        session.sessionHandler = some handler := by
    intro self hSelf
    obtain ⟨session, handler, hObject, hHandler⟩ := sessions_created h self hSelf
    rw [closedAt, getElem?_update, hObject]
    split
    · exact ⟨_, handler, rfl, hHandler⟩
    · exact ⟨session, handler, rfl, hHandler⟩
  refine @linked_erase _ _ ((created T s).closedAt s.objects.length) _ s.objects.length hClosed
    (nodup_created h) ?_ ?_ rfl (objects_removeSession _ _) (sessions_removeSession hFound)
    (reads_removeSession _ _) (writes_removeSession _ _)
  · exact ((h.reads.cons _).trans (List.perm_append_singleton _ _).symm)
  · intro w hWrite
    refine ⟨List.mem_append_left _ (h.writes w hWrite), fun hEq => ?_⟩
    exact h.bounded.length_notMem (hEq ▸ h.writes w hWrite)

private theorem not_backed_refused {found : Nat} (hTaken : s.findSession s.nextId = some found)
    (world : σ) :
    ¬ Backed { removeSession T s.nextId ((created T s).closedAt s.objects.length) with
      locals := [], world } := by
  have hFound : ((created T s).closedAt s.objects.length).findSession s.nextId = some found := by
    rw [findSession_closedAt, h.bounded.findSession_created, hTaken, Option.some_or]
  have hGone := not_mem_removeSession (T := T) (s := (created T s).closedAt s.objects.length)
    (nodup_created h) hFound
  refine not_backed_of_pending found rfl hGone (.inl ?_)
  show found ∈ (removeSession T s.nextId ((created T s).closedAt s.objects.length)).reads
  rw [reads_removeSession]
  exact h.reads.symm.subset (mem_of_findSession hTaken)

end

theorem ends_accepted {s : TcpServer η σ} (h : Linked s) (hStop : s.stop = false) (ec : Bool)
    (calls : Calls) : Ends T s (.accepted ec calls) := by
  have hStep := @step_accepted _ _ T calls _ hStop ec
  by_cases hAccepting : s.accepting = true
  · rw [if_pos hAccepting] at hStep
    cases ec with
    | true =>
        exact .linked hStep (fun _ hEc => nomatch hEc)
          ⟨h.locals, h.sessions, h.nodup, h.reads, h.writes⟩
    | false =>
        let s₀ : TcpServer η σ := { s with accepting := true }
        have h₀ : Linked s₀ := ⟨h.locals, h.sessions, h.nodup, h.reads, h.writes⟩
        cases hEndpoint : calls.remoteEndpoint with
        | true =>
            rw [onAccept_eq, if_pos hEndpoint] at hStep
            refine .inr (.inl ⟨hStep, fun hKeeps => ?_⟩)
            cases (hKeeps hAccepting rfl).1.symm.trans hEndpoint
        | false =>
            cases hRead : calls.asyncReadSome with
            | true =>
                rcases onAccept_refused T calls { s with accepting := false } hEndpoint hRead with
                  ⟨-, hEnds⟩ | ⟨-, world, hOk⟩
                · exact .inl (hStep.trans hEnds)
                cases hFind : s.findSession s.nextId with
                | none =>
                    exact .linked (hStep.trans hOk) (fun _ _ => ⟨hEndpoint, fun _ => hFind⟩)
                      (linked_refused h₀ hFind world)
                | some found =>
                    refine .not_backed (hStep.trans hOk) (fun hKeeps => ?_)
                      (not_backed_refused h₀ hFind world)
                    cases hFind.symm.trans ((hKeeps hAccepting rfl).2 hRead)
            | false =>
                obtain ⟨world, hOk⟩ :=
                  onAccept_reads T calls { s with accepting := false } hEndpoint hRead
                refine .linked (hStep.trans hOk) (fun _ _ => ⟨hEndpoint, fun hThrows => ?_⟩)
                  (linked_started h₀ world)
                cases hThrows.symm.trans hRead
  · rw [if_neg hAccepting] at hStep
    exact .linked hStep (fun hAccepting' => absurd hAccepting' hAccepting) h

theorem ends {s : TcpServer η σ} (h : Linked s) (hStop : s.stop = false) (event : Event) :
    Ends T s event := by
  cases event with
  | accepted ec calls => exact ends_accepted h hStop ec calls
  | retry =>
      have hStep := @step_retry _ _ T _ hStop
      by_cases hRetrying : s.retrying = true
      · rw [if_pos hRetrying] at hStep
        exact .linked hStep trivial ⟨h.locals, h.sessions, h.nodup, h.reads, h.writes⟩
      · rw [if_neg hRetrying] at hStep
        exact .linked hStep trivial h
  | received index data calls =>
      cases hRead : s.reads[index]? with
      | none =>
          refine .linked (step_received_none hStop hRead data) ?_ h
          cases data <;> exact fun self _ hSelf => nomatch hRead.symm.trans hSelf
      | some self =>
          cases data with
          | none => exact ends_received_none h hStop hRead calls
          | some data =>
              cases hReads : calls.asyncReadSome with
              | true => exact ends_received_readFails h hStop hRead data hReads
              | false => exact ends_received_some h hStop hRead data hReads
  | sent index bytes => exact ends_sent h hStop index bytes
  | wrote index ec calls => exact ends_wrote h hStop index ec calls
  | destroyed throwing => exact ends_destroyed h hStop throwing

/-! ## Runs -/

/-- In a run no callback meets a session that is gone, and no operation of such a session is pending
between two events, exactly if each event ends the program or keeps the sessions linked. -/
theorem safe_iff (T : SessionHandlerT η σ) (nextId : UInt32) (world : σ) (events : List Event) :
    Always (step T) (Safe T) (new nextId world) events ↔
      Always (step T) (fun s event => s.stop = true ∨ Stops T s event ∨ Keeps T s event)
        (new nextId world) events := by
  refine always_congr_running (I := fun s => Linked s ∧ Shut s) ?_ ?_ ?_ events
    ⟨linked_new nextId world, shut_new nextId world⟩
  · rintro s event ⟨hLinked, -⟩ hStop
    unfold Safe
    simp [step_stopped hStop, hLinked.backed]
  · rintro s event ⟨hLinked, hShut⟩ hStop
    rw [← step_terminated_iff hShut hStop]
    unfold Safe
    rcases ends (T := T) hLinked hStop event with hStep | ⟨hStep, hKeeps⟩ | ⟨s', hStep, hYes, hNo⟩
    · simp [hStep]
    · simp [hStep, hKeeps]
    · by_cases hKeeps : Keeps T s event
      · simp [hStep, hKeeps, (hYes hKeeps).backed]
      · simp [hStep, hKeeps, hNo hKeeps]
  · rintro s event s' ⟨hLinked, hShut⟩ hStop hKeeps hStep
    refine ⟨?_, shut_step hShut hStep⟩
    rw [← step_terminated_iff hShut hStop] at hKeeps
    rcases ends (T := T) hLinked hStop event with hEnd | ⟨hEnd, -⟩ | ⟨s'', hEnd, hYes, -⟩
    · cases hEnd.symm.trans hStep
    · cases hEnd.symm.trans hStep
    · cases hEnd.symm.trans hStep
      rcases hKeeps with hStops | hKeeps
      · cases hEnd.symm.trans hStops
      · exact hYes hKeeps

/-- A request that is aborted: the read started before it runs into the session that is gone. -/
theorem abort_dangles :
    ¬ Always (step silent) (Safe silent) (new 0 ())
      [.accepted false {}, .received 0 (some (ascii "\x7d")) {}, .received 0 none {}] := by
  let check (s : TcpServer SessionHandler Unit) : Bool :=
    match step silent s (.received 0 none {}) with
    | .error .undefined => true
    | _ => false
  refine not_always_of_run check ?_
    [Event.accepted false {}, .received 0 (some (ascii "\x7d")) {}] (by decide +kernel)
  intro s hEnd hSafe
  dsimp only [check] at hEnd
  split at hEnd
  · rename_i hStep
    exact hSafe.1 hStep
  · cases hEnd

end Kexplorer.Server.TcpServer

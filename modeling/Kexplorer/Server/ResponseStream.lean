import Kexplorer.Server.Teardown

/-!
# What the peer receives

`Session::write` hands the bytes of a string to `async_write` and drops the last
owner of the string when it returns.  So the responses arrive intact exactly as
long as none is sent.
-/

namespace Kexplorer.Server.TcpServer

open Kexplorer.Lib

variable {η σ : Type} {T : SessionHandlerT η σ} {calls : Calls}

/-- The peers have received a part of their responses, in order; no session has two pending writes;
and the handler of a pending write keeps the string. -/
structure Intact (s : TcpServer η σ) : Prop where
  sent : ∀ session ∈ s.objects, session.sent <+: session.responses.flatten
  writes : ∀ self, (s.writes.filter fun w => w.session = self).length ≤ 1
  owned : ∀ w ∈ s.writes, .buffer ∈ w.captures

def Delivers (T : SessionHandlerT η σ) (s : TcpServer η σ) (event : Event) : Prop :=
  ∀ s', step T s event = .ok s' → Intact s'

/-- The state in which `onRead` processes what was received: if the next read fails, a session has
been removed. -/
def proceeding (T : SessionHandlerT η σ) (calls : Calls) (self : Nat) (session : TcpSession η)
    (s : TcpServer η σ) : TcpServer η σ :=
  if calls.asyncReadSome then removeSession T session.id (s.closedAt self) else s

/-- The event starts a write: a chunk is received and answered `Continue`, and `async_write` does
not throw.  (If the next read fails, the socket must close and the session must survive.) -/
def Writes (T : SessionHandlerT η σ) (s : TcpServer η σ) : Event → Prop
  | .received index (some data) calls =>
      ∃ self session handler, s.reads[index]? = some self ∧ s.member self = .ok session ∧
        session.sessionHandler = some handler ∧
        (calls.asyncReadSome = true → ¬ Sticks calls session) ∧
        (s.proceeding T calls self session).isOwned self = true ∧
        (T.process handler data (s.proceeding T calls self session).world).1.1 = .Continue ∧
        calls.asyncWrite = false
  | _ => False

/-- Nothing is being sent and nothing was. -/
structure Mute (s : TcpServer η σ) : Prop where
  writes : s.writes = []
  sent : ∀ session ∈ s.objects, session.sent = []

theorem mute_new (nextId : UInt32) (world : σ) : Mute (new nextId world : TcpServer η σ) :=
  ⟨rfl, List.forall_mem_nil _⟩

theorem Mute.intact {s : TcpServer η σ} (h : Mute s) : Intact s where
  sent session hSession := by
    rw [h.sent session hSession]
    exact List.nil_prefix
  writes self := by
    rw [h.writes]
    exact Nat.zero_le _
  owned := by
    rw [h.writes]
    exact List.forall_mem_nil _

private theorem sent_update {s : TcpServer η σ} (h : ∀ session ∈ s.objects, session.sent = [])
    (self : Nat) {f : TcpSession η → TcpSession η}
    (hf : ∀ session, (f session).sent = session.sent) :
    ∀ session ∈ (s.update self f).objects, session.sent = [] := by
  intro session hSession
  obtain ⟨other, hOther⟩ := List.getElem?_of_mem hSession
  rw [getElem?_update] at hOther
  split at hOther
  · obtain ⟨session', hObject, rfl⟩ := Option.map_eq_some_iff.mp hOther
    rw [hf, h session' (List.mem_of_getElem? hObject)]
  · exact h session (List.mem_of_getElem? hOther)

/-- Only a send changes what the peers have received. -/
theorem kept_sent :
    Kept T (fun s : TcpServer η σ => ∀ session ∈ s.objects, session.sent = []) where
  same h hObjects _ _ := by
    rw [hObjects]
    exact h
  closedAt h _ := sent_update h _ fun _ => rfl
  removeSession h id := by
    rw [objects_removeSession]
    exact h
  update h self f _ _ hSent := sent_update h self hSent
  createSession h session hSession := by
    rcases List.mem_append.mp hSession with hSession | hSession
    · exact h session hSession
    · rw [List.mem_singleton.mp hSession]

/-! ## Which callbacks write -/

theorem writes_closeAndRemove {s s' : TcpServer η σ} {self : Nat}
    (h : closeAndRemove T calls self s = .ok s') : s'.writes = s.writes := by
  rcases member_cases s self with ⟨session, hMember⟩ | hMember
  · rcases closeAndRemove_eq T calls hMember with ⟨hEq, -⟩ | ⟨hEq, -⟩
    · cases hEq.symm.trans h
    · cases hEq.symm.trans h
      rw [writes_removeSession]
      rfl
  · cases (closeAndRemove_undefined hMember).symm.trans h

theorem writes_closeAll {s s' : TcpServer η σ} {throwing selves : List Nat}
    (h : closeAll throwing selves s = .ok s') : s'.writes = s.writes :=
  closeAll_keeps (I := fun closed => closed.writes = s.writes) (fun hWrites _ => hWrites) rfl h

theorem writes_onAccept {s s' : TcpServer η σ} {ec : Bool} (h : onAccept T calls ec s = .ok s') :
    s'.writes = s.writes := by
  cases ec with
  | true =>
      unfold onAccept at h
      cases h
      rfl
  | false =>
      obtain ⟨started, world, hRead, rfl⟩ := onAccept_eq_ok h
      rw [read_eq (member_created { s with accepting := true })] at hRead
      show started.writes = s.writes
      split at hRead
      · exact (writes_closeAndRemove hRead).trans rfl
      · cases hRead
        rfl

/-- A string is written, and nobody owns it. -/
def LeavesString (s : TcpServer η σ) : Prop := ∃ w ∈ s.writes, .buffer ∉ w.captures

theorem LeavesString.not_intact {s : TcpServer η σ} (h : LeavesString s) : ¬ Intact s := by
  obtain ⟨w, hWrite, hCaptures⟩ := h
  exact fun hIntact => hCaptures (hIntact.owned w hWrite)

variable (T calls) in
/-- Processing starts a write exactly if the answer is `Continue` and `async_write` works. -/
theorem processRead_writes {s : TcpServer η σ} {self : Nat} {session : TcpSession η}
    (hMember : s.member self = .ok session) (data : Bytes) :
    (∃ handler, session.sessionHandler = some handler ∧
        (T.process handler data s.world).1.1 = .Continue ∧ calls.asyncWrite = false) ∧
        (∃ s', processRead T calls self data s = .ok s' ∧ LeavesString s') ∨
      (∀ handler, session.sessionHandler = some handler →
          (T.process handler data s.world).1.1 = .Continue → calls.asyncWrite = true) ∧
        ∀ s', processRead T calls self data s = .ok s' → s'.writes = s.writes := by
  rw [processRead_eq hMember]
  cases hHandler : session.sessionHandler with
  | none => exact .inr ⟨nofun, nofun⟩
  | some handler =>
      dsimp only
      by_cases hFails : (T.process handler data s.world).1.1 = .Abort ∨ calls.asyncWrite = true
      · rw [if_pos hFails]
        refine .inr ⟨?_, fun s' h => (writes_closeAndRemove h).trans rfl⟩
        rintro handler' ⟨rfl⟩ hContinue
        exact hFails.resolve_left fun hAbort => nomatch hContinue.symm.trans hAbort
      · rw [if_neg hFails]
        rw [not_or] at hFails
        have hContinue : (T.process handler data s.world).1.1 = .Continue := by
          cases hResult : (T.process handler data s.world).1.1 with
          | Continue => rfl
          | Abort => exact absurd hResult hFails.1
        refine .inl ⟨⟨handler, rfl, hContinue, by simpa using hFails.2⟩, _, rfl, _,
          List.mem_append_right _ (List.mem_singleton_self _), ?_⟩
        exact fun hMem => nomatch List.mem_singleton.mp hMem

/-- The pending reads do not matter to a removal. -/
private theorem removeSession_reads (id : UInt32) (reads : List Nat) (s : TcpServer η σ) :
    removeSession T id { s with reads } = { removeSession T id s with reads } := by
  have hRelease (self : Nat) (s : TcpServer η σ) :
      release T self { s with reads } = { release T self s with reads } := by
    have hOwned : ({ s with reads } : TcpServer η σ).isOwned self = s.isOwned self := rfl
    unfold release
    rw [hOwned]
    cases s.isOwned self with
    | true => rfl
    | false =>
        dsimp only
        cases s.objects[self]?.bind TcpSession.sessionHandler <;> rfl
  have hFind : ({ s with reads } : TcpServer η σ).findSession id = s.findSession id := rfl
  unfold removeSession
  rw [hFind]
  cases s.findSession id with
  | none => rfl
  | some self => exact hRelease self { s with sessions := s.sessions.erase self }

/-- `onRead` starts a write or leaves the pending ones as they are. -/
theorem received_writes {s : TcpServer η σ} (hStop : s.stop = false) (index : Nat) (data : Bytes)
    (calls : Calls) :
    Writes T s (.received index (some data) calls) ∧
        (∃ s', step T s (.received index (some data) calls) = .ok s' ∧ LeavesString s') ∨
      ¬ Writes T s (.received index (some data) calls) ∧
        ∀ s', step T s (.received index (some data) calls) = .ok s' → s'.writes = s.writes := by
  cases hRead : s.reads[index]? with
  | none =>
      rw [step_received_none hStop hRead]
      refine .inr ⟨?_, fun s' hEq => by cases hEq; rfl⟩
      rintro ⟨self, session, handler, hSelf, -⟩
      cases hRead.symm.trans hSelf
  | some self =>
      rw [step_received hStop hRead]
      let s₁ : TcpServer η σ := { s with reads := s.reads.eraseIdx index }
      change _ ∧ (∃ s', onRead T calls self (some data) s₁ = .ok s' ∧ _) ∨
        _ ∧ ∀ s', onRead T calls self (some data) s₁ = .ok s' → _
      rcases member_cases s self with ⟨session, hMember⟩ | hMember
      · have hObject := (member_eq_ok_iff.mp hMember).1
        have hMember₁ : s₁.member self = .ok session := hMember
        have hWrites : Writes T s (.received index (some data) calls) ↔
            ∃ handler, session.sessionHandler = some handler ∧
              (calls.asyncReadSome = true → ¬ Sticks calls session) ∧
              (s.proceeding T calls self session).isOwned self = true ∧
              (T.process handler data (s.proceeding T calls self session).world).1.1 = .Continue ∧
              calls.asyncWrite = false := by
          constructor
          · rintro ⟨self', session', handler, hSelf, hMember', hRest⟩
            cases hRead.symm.trans hSelf
            cases hMember.symm.trans hMember'
            exact ⟨handler, hRest⟩
          · rintro ⟨handler, hRest⟩
            exact ⟨self, session, handler, hRead, hMember, hRest⟩
        rw [hWrites, onRead_some hMember₁]
        by_cases hFails : calls.asyncReadSome = true
        · rw [if_pos hFails]
          by_cases hSticks : Sticks calls session
          · rw [closeAndRemove_of_sticks hMember₁ hSticks]
            exact .inr ⟨fun ⟨_, _, hNot, _⟩ => hNot hFails hSticks, nofun⟩
          · have hProceeding : s.proceeding T calls self session =
                removeSession T session.id (s.closedAt self) := if_pos hFails
            have hClosed : removeSession T session.id (s₁.closedAt self) =
                { s.proceeding T calls self session with reads := s.reads.eraseIdx index } := by
              rw [hProceeding]
              exact removeSession_reads session.id (s.reads.eraseIdx index) (s.closedAt self)
            rw [closeAndRemove_of_not_sticks hMember₁ hSticks, hClosed]
            change _ ∧ (∃ s', processRead T calls self data _ = .ok s' ∧ _) ∨
              _ ∧ ∀ s', processRead T calls self data _ = .ok s' → _
            have hObject₂ : (s.proceeding T calls self session).objects[self]? =
                some { session with isOpen := false } := by
              rw [hProceeding, objects_removeSession]
              exact (member_eq_ok_iff.mp (member_closedAt hMember)).1
            have hWrites₂ : (s.proceeding T calls self session).writes = s.writes := by
              rw [hProceeding, writes_removeSession]
              rfl
            by_cases hOwned : (s.proceeding T calls self session).isOwned self = true
            · have hMember₂ : ({ s.proceeding T calls self session with
                  reads := s.reads.eraseIdx index } : TcpServer η σ).member self =
                    .ok { session with isOpen := false } :=
                member_eq_ok_iff.mpr ⟨hObject₂, hOwned⟩
              rcases processRead_writes T calls hMember₂ data with
                ⟨⟨handler, hHandler, hContinue, hWrite⟩, hLeaves⟩ | ⟨hNot, hSame⟩
              · exact .inl ⟨⟨handler, hHandler, fun _ => hSticks, hOwned, hContinue, hWrite⟩, hLeaves⟩
              · refine .inr ⟨?_, fun s' hEq => (hSame s' hEq).trans hWrites₂⟩
                rintro ⟨handler, hHandler, -, -, hContinue, hWrite⟩
                exact Bool.false_ne_true (hWrite.symm.trans (hNot handler hHandler hContinue))
            · -- the session itself was removed
              have hUndefined : ({ s.proceeding T calls self session with
                  reads := s.reads.eraseIdx index } : TcpServer η σ).member self =
                    .error .undefined :=
                (member_cases _ _).resolve_left fun ⟨_, hMember₂⟩ =>
                  hOwned (member_eq_ok_iff.mp hMember₂).2
              rw [processRead_undefined hUndefined]
              exact .inr ⟨fun ⟨_, _, _, hYes, _⟩ => hOwned hYes, nofun⟩
        · rw [if_neg hFails]
          have hProceeding : s.proceeding T calls self session = s := if_neg hFails
          have hMember₂ : ({ s₁ with reads := s₁.reads ++ [self] } : TcpServer η σ).member self =
              .ok session := hMember
          rw [hProceeding]
          rcases processRead_writes T calls hMember₂ data with
            ⟨⟨handler, hHandler, hContinue, hWrite⟩, hLeaves⟩ | ⟨hNot, hSame⟩
          · exact .inl ⟨⟨handler, hHandler, fun h => absurd h hFails,
              (member_eq_ok_iff.mp hMember).2, hContinue, hWrite⟩, hLeaves⟩
          · refine .inr ⟨?_, hSame⟩
            rintro ⟨handler, hHandler, -, -, hContinue, hWrite⟩
            exact Bool.false_ne_true (hWrite.symm.trans (hNot handler hHandler hContinue))
      · rw [onRead_undefined (s := s₁) hMember]
        refine .inr ⟨?_, nofun⟩
        rintro ⟨self', session, handler, hSelf, hMember', -⟩
        cases hRead.symm.trans hSelf
        cases hMember.symm.trans hMember'

/-! ## Runs -/

/-- While nothing is written, an event starts a write or leaves it so. -/
theorem mute_step {s : TcpServer η σ} (h : Mute s) (hStop : s.stop = false) (event : Event) :
    Writes T s event ∧ (∃ s', step T s event = .ok s' ∧ LeavesString s') ∨
      ¬ Writes T s event ∧ ∀ s', step T s event = .ok s' → Mute s' := by
  have hNoWrite (index : Nat) : s.writes[index]? = none := by rw [h.writes, List.getElem?_nil]
  have hSent {s'} (hNot : ∀ index bytes, event ≠ .sent index bytes)
      (hStep : step T s event = .ok s') : ∀ session ∈ s'.objects, session.sent = [] :=
    kept_sent.step h.sent (fun index bytes hEq => absurd hEq (hNot index bytes)) hStep
  cases event with
  | accepted ec calls =>
      refine .inr ⟨id, fun s' hStep => ⟨?_, hSent nofun hStep⟩⟩
      rw [step_accepted hStop] at hStep
      split at hStep
      · exact (writes_onAccept hStep).trans h.writes
      · cases hStep
        exact h.writes
  | retry =>
      refine .inr ⟨id, fun s' hStep => ⟨?_, hSent nofun hStep⟩⟩
      rw [step_retry hStop] at hStep
      split at hStep <;> cases hStep <;> exact h.writes
  | received index data calls =>
      cases data with
      | none =>
          refine .inr ⟨id, fun s' hStep => ⟨?_, hSent nofun hStep⟩⟩
          cases hRead : s.reads[index]? with
          | none =>
              rw [step_received_none hStop hRead] at hStep
              cases hStep
              exact h.writes
          | some self =>
              rw [step_received hStop hRead] at hStep
              let s₁ : TcpServer η σ := { s with reads := s.reads.eraseIdx index }
              change onRead T calls self none s₁ = .ok s' at hStep
              rcases member_cases s₁ self with ⟨session, hMember⟩ | hMember
              · rw [onRead_none hMember] at hStep
                exact (writes_closeAndRemove hStep).trans h.writes
              · cases (onRead_undefined hMember none).symm.trans hStep
      | some data =>
          rcases received_writes (T := T) hStop index data calls with hYes | ⟨hNo, hSame⟩
          · exact .inl hYes
          · exact .inr ⟨hNo, fun s' hStep => ⟨(hSame s' hStep).trans h.writes, hSent nofun hStep⟩⟩
  | sent index bytes =>
      refine .inr ⟨id, fun s' hStep => ?_⟩
      rcases step_sent (T := T) hStop index bytes with hEq | ⟨w, hWrite, -⟩
      · cases hEq.symm.trans hStep
        exact h
      · cases (hNoWrite index).symm.trans hWrite
  | wrote index ec calls =>
      refine .inr ⟨id, fun s' hStep => ?_⟩
      rw [step_wrote_none hStop (hNoWrite index)] at hStep
      cases hStep
      exact h
  | destroyed throwing =>
      refine .inr ⟨id, fun s' hStep => ⟨?_, hSent nofun hStep⟩⟩
      rw [step_destroyed hStop] at hStep
      obtain ⟨closed, hClose, rfl⟩ := map_eq_ok_iff.mp hStep
      exact (writes_closeAll hClose).trans h.writes

/-- The responses arrive intact in a run exactly if, while the server exists, none is sent. -/
theorem delivers_iff (T : SessionHandlerT η σ) (nextId : UInt32) (world : σ) (events : List Event) :
    Always (step T) (Delivers T) (new nextId world) events ↔
      Always (step T) (fun s event => s.stop = true ∨ ¬ Writes T s event) (new nextId world)
        events := by
  refine always_congr_running (I := Mute) ?_ ?_ ?_ events (mute_new nextId world)
  · intro s event h hStop s' hStep
    cases (step_stopped hStop event).symm.trans hStep
    exact h.intact
  · intro s event h hStop
    rcases mute_step (T := T) h hStop event with ⟨hYes, s', hStep, hLeaves⟩ | ⟨hNo, hMute⟩
    · exact iff_of_false (fun hDelivers => hLeaves.not_intact (hDelivers s' hStep)) (not_not.mpr hYes)
    · exact iff_of_true (fun s' hStep => (hMute s' hStep).intact) hNo
  · intro s event s' h hStop hQuiet hStep
    rcases mute_step (T := T) h hStop event with ⟨hYes, -⟩ | ⟨-, hMute⟩
    · exact absurd hYes hQuiet
    · exact hMute s' hStep

/-- The template over a request processor that answers each request with its text. -/
def echo : SessionHandlerT SessionHandler Unit :=
  SessionHandler.template
    { process := fun _ request length w => (.ok (request.take length), w)
      returns := fun _ request length _ => ⟨request.take length, rfl⟩ }
    (fun _ w => w) (fun _ w => w) 65536 65536

/-- Two requests of one session: both writes are pending, and the second sends bytes that belong to
no response. -/
theorem responses_interleave :
    ¬ Always (step echo) (Delivers echo) (new 0 ())
      [.accepted false {}, .received 0 (some (ascii "\x7b\x7d")) {},
        .received 0 (some (ascii "\x7b\x7d")) {}, .sent 1 (ascii "?")] := by
  let check (s : TcpServer SessionHandler Unit) : Bool :=
    decide ((s.writes.filter fun w => w.session = 0).length = 2) &&
      match step echo s (.sent 1 (ascii "?")) with
      | .ok s' => s'.objects.any fun session => !decide (session.sent <+: session.responses.flatten)
      | .error _ => false
  refine not_always_of_run check ?_
    [Event.accepted false {}, .received 0 (some (ascii "\x7b\x7d")) {},
      .received 0 (some (ascii "\x7b\x7d")) {}] (by decide +kernel)
  intro s hEnd hDelivers
  obtain ⟨-, hEnd⟩ := Bool.and_eq_true_iff.mp hEnd
  split at hEnd
  · rename_i s' hStep
    obtain ⟨session, hSession, hNot⟩ := List.any_eq_true.mp hEnd
    have hSent := (hDelivers s' hStep).sent session hSession
    simp [hSent] at hNot
  · cases hEnd

end Kexplorer.Server.TcpServer

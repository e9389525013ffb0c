import Kexplorer.Process.ProcessManager
import Kexplorer.Server.Teardown

/-!
# The ids of sessions

Ids come from a counter of 32 bits that wraps around and does not look at the
sessions that live.  They are keys: `removeSession` takes the first session of
`m_sessions` that has an id, and the process manager keeps a snapshot under each.

The ids of `m_sessions` stay distinct exactly as long as the counter does not
come to the id of a session that still lives.
-/

namespace Kexplorer.Server.TcpServer

open Kexplorer.Lib Kexplorer.Process Kexplorer.Props

variable {η σ : Type}

/-- The id of the session at an address. -/
def idAt (s : TcpServer η σ) (self : Nat) : Option UInt32 := s.objects[self]?.map TcpSession.id

/-- The ids of `m_sessions` are distinct, `removeSession` finds each session under its id, and the
process manager has no session of this id start or end in the place of another one. -/
structure Separate (s : TcpServer η σ) : Prop where
  distinct : (s.sessions.map s.idAt).Nodup
  removes : ∀ self ∈ s.sessions, ∀ id, s.idAt self = some id → s.findSession id = some self
  snapshots : ∀ self ∈ s.sessions, ∀ other ∈ s.sessions, self ≠ other →
    ∀ id id', s.idAt self = some id → s.idAt other = some id' → ∀ manager : ProcessManager,
      UnorderedMap.find (manager.startSession id).sessions id' =
          UnorderedMap.find manager.sessions id' ∧
        UnorderedMap.find (manager.endSession id).sessions id' =
          UnorderedMap.find manager.sessions id'

/-- The sessions are separate after the event, and also while an accepted one starts. -/
def Separates (T : SessionHandlerT η σ) (s : TcpServer η σ) (event : Event) : Prop :=
  (Accepts s event → Separate s.createSession) ∧ ∀ s', step T s event = .ok s' → Separate s'

/-- The counter does not give an accepted session the id of one that lives. -/
def FreshId (s : TcpServer η σ) (event : Event) : Prop :=
  Accepts s event → s.findSession s.nextId = none

/-- Distinct ids separate the sessions. -/
theorem separate_iff {s : TcpServer η σ} : Separate s ↔ (s.sessions.map s.idAt).Nodup := by
  refine ⟨Separate.distinct, fun hNodup => ⟨hNodup, ?_, ?_⟩⟩
  · intro self hSelf id hId
    have hFound : ∃ found, s.findSession id = some found := by
      rw [← Option.isSome_iff_exists]
      unfold findSession
      rw [List.find?_isSome]
      exact ⟨self, hSelf, decide_eq_true hId⟩
    obtain ⟨found, hFind⟩ := hFound
    have hMem : found ∈ s.sessions := List.mem_of_find?_eq_some hFind
    have hEq : s.idAt found = some id := by
      unfold findSession at hFind
      exact of_decide_eq_true (@List.find?_some _ _ found _ hFind)
    rw [hFind, List.inj_on_of_nodup_map hNodup hMem hSelf (hEq.trans hId.symm)]
  · intro self hSelf other hOther hNe id id' hId hId' manager
    have hIds : id' ≠ id := by
      rintro rfl
      exact hNe (List.inj_on_of_nodup_map hNodup hSelf hOther (hId.trans hId'.symm))
    rw [ProcessManager.find_startSession, ProcessManager.find_endSession, if_neg hIds, if_neg hIds]
    exact ⟨rfl, rfl⟩

/-! ## What an event can do to the ids -/

/-- All sessions are among those of the first state and have the same ids. -/
structure From (base s : TcpServer η σ) : Prop where
  sessions : s.sessions.Sublist base.sessions
  ids : ∀ self, s.idAt self = base.idAt self

theorem From.separate {base s : TcpServer η σ} (h : From base s) (hBase : Separate base) :
    Separate s := by
  rw [separate_iff] at hBase ⊢
  have hIds : s.idAt = base.idAt := funext h.ids
  rw [hIds]
  exact hBase.sublist (h.sessions.map _)

theorem idAt_update (s : TcpServer η σ) (self other : Nat) {f : TcpSession η → TcpSession η}
    (hf : ∀ session, (f session).id = session.id) : (s.update self f).idAt other = s.idAt other := by
  rw [idAt, getElem?_update, idAt]
  split
  · cases s.objects[other]? <;> simp [hf]
  · rfl

variable {T : SessionHandlerT η σ}

theorem settled_from (base : TcpServer η σ) : Settled T (From base) where
  same h hObjects hSessions _ :=
    ⟨by rw [hSessions]; exact h.sessions, fun self => by rw [idAt, hObjects]; exact h.ids self⟩
  closedAt {s self _} h _ := by
    refine ⟨h.sessions, fun other => ?_⟩
    have hUpdate := idAt_update s self other
      (f := fun session => { session with isOpen := false }) fun _ => rfl
    exact hUpdate.trans (h.ids other)
  removeSession {s} h id := by
    refine ⟨List.Sublist.trans ?_ h.sessions, fun self => ?_⟩
    · rcases removeSession_eq (T := T) id s with ⟨-, hEq⟩ | ⟨self, world, -, hEq⟩ <;> rw [hEq]
      exact List.erase_sublist
    · rw [idAt, objects_removeSession]
      exact h.ids self
  update h self f _ hId _ := ⟨h.sessions, fun other => (idAt_update _ _ _ hId).trans (h.ids other)⟩

theorem from_created (s : TcpServer η σ) : From s.createSession (created T s) :=
  ⟨.refl _, fun self => idAt_update s.createSession s.objects.length self
    (f := fun session => { session with sessionHandler := some (T.create s.nextId s.world).1 })
    fun _ => rfl⟩

/-- Accepting a connection adds one session. -/
theorem from_accepted {s s' : TcpServer η σ} {event : Event} (hAccepts : Accepts s event)
    (hStep : step T s event = .ok s') : From s.createSession s' := by
  obtain ⟨hStop, hAccepting, calls, rfl⟩ := hAccepts
  have hSettled : Settled T (From s.createSession) := settled_from _
  rw [step_accepted hStop, if_pos hAccepting] at hStep
  refine hSettled.onAccept ?_ hStep
  exact hSettled.same (from_created (T := T) s) rfl rfl rfl

/-- Any other event adds none. -/
theorem from_of_not_accepts {s s' : TcpServer η σ} {event : Event} (hAccepts : ¬ Accepts s event)
    (hStep : step T s event = .ok s') : From s s' := by
  have hRefl : From s s := ⟨.refl _, fun _ => rfl⟩
  refine (settled_from (T := T) s).step hRefl (fun index bytes _ self => ?_) hAccepts hStep
  exact ⟨.refl _, fun other => idAt_update s self other
    (f := fun session => { session with sent := session.sent ++ bytes }) fun _ => rfl⟩

/-- A new session is separate from the others if none of these has its id. -/
theorem separate_createSession {s : TcpServer η σ} (hBounded : Bounded s) (h : Separate s) :
    Separate s.createSession ↔ s.findSession s.nextId = none := by
  have hOld : s.sessions.map s.createSession.idAt = s.sessions.map s.idAt := by
    refine List.map_congr_left fun self hSelf => ?_
    rw [idAt, createSession, List.getElem?_append_left (hBounded self hSelf), idAt]
  have hNew : s.createSession.idAt s.objects.length = some s.nextId := by
    simp [idAt, createSession]
  rw [separate_iff]
  show ((s.sessions ++ [s.objects.length]).map s.createSession.idAt).Nodup ↔ _
  rw [List.map_append, hOld, List.map_singleton, hNew, List.nodup_append, findSession,
    List.find?_eq_none]
  constructor
  · rintro ⟨-, -, hNe⟩ self hSelf hId
    exact hNe _ (List.mem_map_of_mem hSelf) _ (List.mem_singleton_self _) (of_decide_eq_true hId)
  · intro hNone
    refine ⟨h.distinct, List.pairwise_singleton _ _, ?_⟩
    intro id hId id' hId' hEq
    obtain ⟨self, hSelf, rfl⟩ := List.mem_map.mp hId
    exact hNone self hSelf (decide_eq_true (hEq.trans (List.mem_singleton.mp hId')))

/-- The step lemma. -/
theorem separates_step {s : TcpServer η σ} {event : Event} (hBounded : Bounded s)
    (h : Separate s) : Separates T s event ↔ FreshId s event := by
  constructor
  · exact fun hSeparates hAccepts =>
      (separate_createSession hBounded h).mp (hSeparates.1 hAccepts)
  · intro hFresh
    have hCreated (hAccepts : Accepts s event) : Separate s.createSession :=
      (separate_createSession hBounded h).mpr (hFresh hAccepts)
    refine ⟨hCreated, fun s' hStep => ?_⟩
    by_cases hAccepts : Accepts s event
    · exact (from_accepted hAccepts hStep).separate (hCreated hAccepts)
    · exact (from_of_not_accepts hAccepts hStep).separate h

/-- The sessions of a run are separate after every event if and only if no accepted session gets the
id of one that lives. -/
theorem separates_iff (T : SessionHandlerT η σ) (nextId : UInt32) (world : σ)
    (events : List Event) :
    Always (step T) (Separates T) (new nextId world) events ↔
      Always (step T) FreshId (new nextId world) events := by
  refine always_congr (I := fun s => Bounded s ∧ Separate s) ?_ ?_ events
    ⟨bounded_new nextId world, separate_iff.mpr List.nodup_nil⟩
  · exact fun s event hInv => separates_step hInv.1 hInv.2
  · intro s event s' hInv hFresh hStep
    exact ⟨hInv.1.step hStep, ((separates_step hInv.1 hInv.2).mpr hFresh).2 s' hStep⟩

/-! ## A counter that has come round -/

/-- A connection that is accepted and whose first read is started. -/
theorem step_accepted_reads {s : TcpServer η σ} (hStop : s.stop = false)
    (hAccepting : s.accepting = true) :
    ∃ world, step T s (.accepted false {}) = .ok
      { created T s with
        accepting := true, locals := [], reads := s.reads ++ [s.objects.length], world } := by
  have hSame : { { s with accepting := false } with accepting := true } = s := by
    cases s
    simp_all
  obtain ⟨world, hOk⟩ := onAccept_reads T {} { s with accepting := false } rfl rfl
  refine ⟨world, ?_⟩
  rw [step_accepted hStop, if_pos hAccepting, hOk, hSame, ← hAccepting]
  rfl

/-- A session whose connection ends is removed under its id. -/
theorem step_received_removes {s : TcpServer η σ} (hStop : s.stop = false) {index self : Nat}
    (hRead : s.reads[index]? = some self) {session : TcpSession η}
    (hMember : s.member self = .ok session) :
    step T s (.received index none {}) = .ok
      (removeSession T session.id
        ({ s with reads := s.reads.eraseIdx index : TcpServer η σ }.closedAt self)) := by
  have hEnded : ({ s with reads := s.reads.eraseIdx index } : TcpServer η σ).member self =
      .ok session := hMember
  rw [step_received hStop hRead, onRead_none hEnded]
  refine closeAndRemove_of_not_sticks hEnded ?_
  rintro ⟨-, hThrows | hThrows⟩ <;> cases hThrows

/-- A client that comes and goes while the first session is still there. -/
def visit : List Event := [.accepted false {}, .received 1 none {}]

/-- After the first session and a number of visits. -/
structure Visited (n : Nat) (s : TcpServer SessionHandler Unit) : Prop where
  stop : s.stop = false
  accepting : s.accepting = true
  sessions : s.sessions = [0]
  reads : s.reads = [0]
  nextId : s.nextId = UInt32.ofNat (n + 1)
  length : s.objects.length = n + 1
  first : s.idAt 0 = some 0

theorem Visited.bounded {n : Nat} {s : TcpServer SessionHandler Unit} (h : Visited n s) :
    Bounded s := by
  intro self hSelf
  rw [h.sessions, List.mem_singleton] at hSelf
  rw [hSelf, h.length]
  exact Nat.succ_pos n

/-- The first session comes before the visitor in `m_sessions`, under another id. -/
theorem Visited.findSession_created {n : Nat} {s : TcpServer SessionHandler Unit}
    (h : Visited n s) (hn : n + 1 < 2 ^ 32) :
    (created silent s).findSession s.nextId = some (n + 1) := by
  have hOther : s.findSession s.nextId = none := by
    have hNe : (0 : UInt32) ≠ UInt32.ofNat (n + 1) := by
      intro hEq
      have hNat := congrArg UInt32.toNat hEq
      rw [UInt32.toNat_ofNat_of_lt' hn] at hNat
      exact absurd hNat (Nat.succ_ne_zero n).symm
    unfold findSession
    rw [h.sessions, h.nextId, List.find?_singleton]
    refine if_neg fun hId => hNe ?_
    exact Option.some.inj (h.first.symm.trans (of_decide_eq_true hId))
  rw [h.bounded.findSession_created, hOther, h.length]
  rfl

/-- The visitor gets the next id and is removed under it. -/
theorem Visited.visit {n : Nat} {s : TcpServer SessionHandler Unit} (h : Visited n s)
    (hn : n + 1 < 2 ^ 32) : ∃ s', run (step silent) s visit = .ok s' ∧ Visited (n + 1) s' := by
  obtain ⟨world, hAccepted⟩ := step_accepted_reads (T := silent) h.stop h.accepting
  let accepted : TcpServer SessionHandler Unit :=
    { created silent s with
      accepting := true, locals := [], reads := s.reads ++ [s.objects.length], world }
  have hReads : accepted.reads[1]? = some (n + 1) := by
    show (s.reads ++ [s.objects.length])[1]? = _
    rw [h.reads, h.length]
    rfl
  have hSessions : accepted.sessions = [0, n + 1] := by
    show s.sessions ++ [s.objects.length] = _
    rw [h.sessions, h.length]
    rfl
  have hMember : accepted.member (n + 1) =
      .ok { s.fresh with sessionHandler := some (silent.create s.nextId s.world).1 } := by
    rw [member_eq_ok_iff, ← h.length]
    refine ⟨(member_eq_ok_iff.mp (member_created s)).1, ?_⟩
    simp [isOwned, hSessions, h.length]
  have hReceived := @step_received_removes _ _ silent accepted h.stop _ _ hReads _ hMember
  -- the connection has ended
  let ended : TcpServer SessionHandler Unit := { accepted with reads := accepted.reads.eraseIdx 1 }
  have hFind : (ended.closedAt (n + 1)).findSession s.nextId = some (n + 1) := by
    rw [findSession_closedAt]
    exact h.findSession_created hn
  refine ⟨removeSession silent s.nextId (ended.closedAt (n + 1)), ?_, ?_⟩
  · rw [TcpServer.visit, run_of_step hAccepted, run_of_step hReceived]
    rfl
  · rcases removeSession_eq (T := silent) s.nextId (ended.closedAt (n + 1)) with
      ⟨hNone, -⟩ | ⟨self, world', hSome, hEq⟩
    · cases hFind.symm.trans hNone
    cases hFind.symm.trans hSome
    rw [hEq]
    refine ⟨h.stop, rfl, ?_, ?_, ?_, ?_, ?_⟩
    · show accepted.sessions.erase (n + 1) = [0]
      rw [hSessions]
      simp
    · show (s.reads ++ [s.objects.length]).eraseIdx 1 = [0]
      rw [h.reads]
      rfl
    · show s.nextId + 1 = UInt32.ofNat (n + 1 + 1)
      rw [h.nextId, UInt32.ofNat_add (n + 1) 1]
      rfl
    · show (ended.closedAt (n + 1)).objects.length = n + 1 + 1
      simp [closedAt, update, ended, accepted, created, createSession, h.length]
    · show (ended.closedAt (n + 1)).idAt 0 = some 0
      have hClosed := idAt_update ended (n + 1) 0
        (f := fun session => { session with isOpen := false }) fun _ => rfl
      have hZero : (0 : Nat) ∈ s.sessions := h.sessions ▸ List.mem_singleton_self 0
      have hOld : ended.objects[0]? = s.objects[0]? := h.bounded.getElem?_created hZero
      refine hClosed.trans (Eq.trans ?_ h.first)
      rw [idAt, hOld, idAt]

theorem visited (n : Nat) (hn : n < 2 ^ 32) :
    ∃ s, run (step silent) (new 0 ()) (.accepted false {} :: (List.replicate n visit).flatten) =
      .ok s ∧ Visited n s := by
  induction n with
  | zero =>
      obtain ⟨world, hAccepted⟩ := step_accepted_reads (T := silent) (s := new 0 ()) rfl rfl
      exact ⟨_, run_of_step hAccepted [], ⟨rfl, rfl, rfl, rfl, rfl, rfl, rfl⟩⟩
  | succ n ih =>
      obtain ⟨s, hRun, hVisited⟩ := ih (Nat.lt_of_succ_lt hn)
      obtain ⟨s', hVisit, hVisited'⟩ := hVisited.visit hn
      refine ⟨s', ?_, hVisited'⟩
      rw [List.replicate_succ', List.flatten_append, List.flatten_singleton, ← List.cons_append,
        run_append visit hRun, hVisit]

/-- With 2 ^ 32 accepted connections, the id of the first one is given away again. -/
theorem ids_come_round :
    ¬ Always (step silent) (Separates silent) (new 0 ())
      (.accepted false {} :: (List.replicate (2 ^ 32 - 1) visit).flatten ++
        [.accepted false {}]) := by
  intro hAlways
  obtain ⟨s, hRun, h⟩ := visited (2 ^ 32 - 1) (by omega)
  have hSeparate := (hAlways.of_run hRun).1.1 ⟨h.stop, h.accepting, {}, rfl⟩
  have hNone : s.findSession s.nextId = none := by
    refine (separate_createSession h.bounded (separate_iff.mpr ?_)).mp hSeparate
    rw [h.sessions]
    exact List.nodup_singleton _
  unfold findSession at hNone
  rw [h.sessions, h.nextId, List.find?_singleton] at hNone
  cases (if_pos (decide_eq_true h.first)).symm.trans hNone

end Kexplorer.Server.TcpServer

import Kexplorer.Lib.Run
import Kexplorer.Process.ProcessManager
import Kexplorer.Process.Responses
import Kexplorer.Server.RequestProcessor

/-!
# The sessions of the process manager

A session handler announces its session to the request processor when it is
constructed and when it is destroyed, and the processor tells every registered
handler, the process manager once for each of its commands.

What a session sees, its snapshot and its replies, does not depend on the other
sessions (`confined`), as long as the program goes on.  It does if and only if
nobody asks for a diff (`isolated_iff`): a diff that meets a process that is gone
runs into undefined behaviour, and any other builds a response that fails an
assertion of the encoder.
-/

namespace Kexplorer.Server

open Kexplorer.Lib Kexplorer.Props Kexplorer.Process

/-! ## The calls of the request processor -/

namespace RequestProcessor

variable {η : Type} [DecidableEq η]

/-- `RequestProcessor::startSession`, as far as the process manager is concerned: the other
handlers do not know its sessions. -/
def startSession (rp : RequestProcessor η) (pm : η) (id : UInt32) (manager : ProcessManager) :
    ProcessManager :=
  rp.handlers.foldl
    (fun manager entry => if entry.2 = pm then manager.startSession id else manager) manager

/-- `RequestProcessor::endSession`. -/
def endSession (rp : RequestProcessor η) (pm : η) (id : UInt32) (manager : ProcessManager) :
    ProcessManager :=
  rp.handlers.foldl
    (fun manager entry => if entry.2 = pm then manager.endSession id else manager) manager

/-- The loop of `RequestProcessor::process` over the handlers of a command. -/
def callManager (pm : η) (sessionId : UInt32) (key : CString) (id : Int32) (request : Request) :
    List η → PropertyBag → Bool → ProcessManager →
      Except Process.Fault (Bool × PropertyBag × ProcessManager)
  | [], response, handlerFound, manager => .ok (handlerFound, response, manager)
  | handler :: handlers, response, handlerFound, manager =>
      if handler = pm then do
        let (handlerFound, response, manager) ←
          manager.process sessionId key id request.proc request.layout response
        callManager pm sessionId key id request handlers response handlerFound manager
      else callManager pm sessionId key id request handlers response handlerFound manager

/-- The reply behind the loop. -/
def replyTo (order : Traversal) (id : Int32) (handlerFound : Bool) (response : PropertyBag) :
    Reply :=
  if handlerFound then encoded knownRegistry (order.visit response) else unsupported id

/-- The process manager is registered under both its commands, and nobody else is. -/
structure HasManager (rp : RequestProcessor η) (pm : η) : Prop where
  list : rp.equalRange (ascii "list_processes") = [pm]
  diff : rp.equalRange (ascii "diff_processes") = [pm]

/-- Calling a handler that does nothing the second time is calling it once. -/
private theorem foldl_idempotent {α β : Type} {f : β → β} (hTwice : ∀ b, f (f b) = f b)
    (p : α → Bool) (entries : List α) : ∀ b : β,
      entries.foldl (fun b entry => if p entry then f b else b) b =
        if entries.any p then f b else b := by
  induction entries with
  | nil => exact fun _ => rfl
  | cons entry entries ih =>
      intro b
      rw [List.foldl_cons, ih, List.any_cons]
      cases p entry with
      | false => rfl
      | true =>
          simp only [if_true, Bool.true_or, hTwice]
          exact ite_self _

theorem any_of_hasManager {rp : RequestProcessor η} {pm : η} (h : rp.HasManager pm) :
    (rp.handlers.any fun entry => entry.2 = pm) = true := by
  have hMem : pm ∈ rp.equalRange (ascii "list_processes") := by
    rw [h.list]
    exact List.mem_singleton_self pm
  obtain ⟨entry, hEntry, hSelf⟩ := List.mem_map.mp hMem
  exact List.any_eq_true.mpr ⟨entry, List.mem_of_mem_filter hEntry, decide_eq_true hSelf⟩

/-- The process manager hears of a session several times, and starts it once. -/
theorem startSession_eq {rp : RequestProcessor η} {pm : η} (h : rp.HasManager pm) (id : UInt32)
    (manager : ProcessManager) : rp.startSession pm id manager = manager.startSession id := by
  have hFold := foldl_idempotent (f := fun m : ProcessManager => m.startSession id)
    (fun m => m.startSession_startSession id)
    (fun entry : Bytes × η => entry.2 = pm) rp.handlers manager
  rw [any_of_hasManager h, if_pos rfl] at hFold
  simpa [startSession] using hFold

/-- It ends it once. -/
theorem endSession_eq {rp : RequestProcessor η} {pm : η} (h : rp.HasManager pm) (id : UInt32)
    (manager : ProcessManager) : rp.endSession pm id manager = manager.endSession id := by
  have hFold := foldl_idempotent (f := fun m : ProcessManager => m.endSession id)
    (fun m => m.endSession_endSession id)
    (fun entry : Bytes × η => entry.2 = pm) rp.handlers manager
  rw [any_of_hasManager h, if_pos rfl] at hFold
  simpa [endSession] using hFold

end RequestProcessor

/-- What is sent: a failed assertion ends the program. -/
def Reply.sent : Reply → Except Process.Fault Bytes
  | .returned text => .ok text
  | .terminated => .error .assertion

theorem Reply.sent_eq_ok_iff {reply : Reply} {text : Bytes} :
    reply.sent = .ok text ↔ reply = .returned text := by
  cases reply with
  | returned text' => simp [sent]
  | terminated => simp [sent]

/-! ## The sessions together -/

/-- The process manager, the sessions whose handlers exist, and the replies so far. -/
structure Sessions where
  manager : ProcessManager := {}
  live : List UInt32 := []
  replies : List (UInt32 × Bytes) := []

namespace Sessions

/-- A session handler is constructed, gets a request, or is destroyed. -/
inductive Event
  | start (id : UInt32)
  | request (id : UInt32) (requestId : Int32) (request : Request) (order : Traversal)
  | finish (id : UInt32)

namespace Event

def sessionId : Event → UInt32
  | .start id => id
  | .request id _ _ _ => id
  | .finish id => id

/-- A request for `diff_processes`. -/
def IsDiff : Event → Prop
  | .request _ _ asked _ => asked.initial = false
  | _ => False

end Event

/-- The command of a request. -/
def command (request : Request) : CString :=
  if request.initial then literal "list_processes" else literal "diff_processes"

section

variable {η : Type} [DecidableEq η] (rp : RequestProcessor η) (pm : η)

def step (s : Sessions) : Event → Except Process.Fault Sessions
  | .start id =>
      .ok { s with manager := rp.startSession pm id s.manager, live := id :: s.live }
  | .request id requestId request order => do
      let result ← RequestProcessor.callManager pm id (command request) requestId request
        (rp.equalRange (command request).bytes) (.table [] []) false s.manager
      let text ← (RequestProcessor.replyTo order requestId result.1 result.2.1).sent
      return { s with manager := result.2.2, replies := s.replies ++ [(id, text)] }
  | .finish id =>
      .ok { s with
        manager := rp.endSession pm id s.manager
        live := s.live.filter fun other => other ≠ id }

/-- An id is used by one session at a time, and only a session that lives has requests and ends. -/
def Allowed (s : Sessions) : Event → Prop
  | .start id => id ∉ s.live
  | .request id _ _ _ => id ∈ s.live
  | .finish id => id ∈ s.live

/-- What a session sees: its entry, which has the snapshot, the removed pids and the timestamp, and
its replies. -/
def view (id : UInt32) (s : Sessions) : Option Session × List (UInt32 × Bytes) :=
  (UnorderedMap.find s.manager.sessions id, s.replies.filter fun reply => reply.1 = id)

/-- A run goes through; there is an entry for every session that lives, and for no other; and every
session sees what it would see if there were no others. -/
def Isolated (events : List Event) : Prop :=
  ∃ s, run (step rp pm) {} events = .ok s ∧
    (∀ id, (UnorderedMap.find s.manager.sessions id).isSome = true ↔ id ∈ s.live) ∧
    ∀ id, ∃ s', run (step rp pm) {} (events.filter fun event => event.sessionId = id) = .ok s' ∧
      view id s = view id s'

variable {rp pm}

/-- The only handler of a command is called once. -/
theorem callManager_eq (h : rp.HasManager pm) (id : UInt32) (requestId : Int32) (request : Request)
    (manager : ProcessManager) :
    RequestProcessor.callManager pm id (command request) requestId request
        (rp.equalRange (command request).bytes) (.table [] []) false manager =
      manager.process id (command request) requestId request.proc request.layout
        (.table [] []) := by
  have hOnly : rp.equalRange (command request).bytes = [pm] := by
    unfold command
    cases request.initial with
    | true => exact h.list
    | false => exact h.diff
  rw [hOnly, RequestProcessor.callManager, if_pos rfl]
  cases manager.process id (command request) requestId request.proc request.layout
    (.table [] []) <;> rfl

/-- What the process manager does with a command. -/
theorem processSession_command (session : Session) (requestId : Int32) (request : Request) :
    ProcessManager.processSession session (command request) requestId request.proc request.layout
        (.table [] []) =
      (readProcesses request.initial request.proc request.layout session).map fun session' =>
        some (session', .table [] (responseMembers request.initial session' requestId)) := by
  have hNames : literal "diff_processes" ≠ literal "list_processes" := by decide
  unfold ProcessManager.processSession command
  cases request.initial with
  | true =>
      rw [if_pos rfl, if_pos rfl, listProcesses_eq, Option.map_map]
      rfl
  | false =>
      rw [if_neg Bool.false_ne_true, if_neg hNames, if_pos rfl, listProcesses_eq, Option.map_map]
      rfl

/-- The process manager answers a command if the session is there and its processes are read. -/
theorem manager_process_eq_ok_iff {manager : ProcessManager} {id : UInt32} {requestId : Int32}
    {request : Request} {result : Bool × PropertyBag × ProcessManager} :
    manager.process id (command request) requestId request.proc request.layout (.table [] []) =
        .ok result ↔
      ∃ session session', UnorderedMap.find manager.sessions id = some session ∧
        readProcesses request.initial request.proc request.layout session = some session' ∧
        result = (true, .table [] (responseMembers request.initial session' requestId),
          { sessions := swapIn manager.sessions id session' }) := by
  unfold ProcessManager.process
  cases UnorderedMap.find manager.sessions id with
  | none => simp
  | some session =>
      dsimp only
      rw [processSession_command]
      cases hRead : readProcesses request.initial request.proc request.layout session with
      | none => simp [hRead]
      | some session' => simp [hRead, eq_comm]

/-- A request goes through if its session is there, its processes are read, and the response is
encoded. -/
theorem step_request_eq_ok_iff (h : rp.HasManager pm) {s s' : Sessions} {id : UInt32}
    {requestId : Int32} {request : Request} {order : Traversal} :
    step rp pm s (.request id requestId request order) = .ok s' ↔
      ∃ session session' text, UnorderedMap.find s.manager.sessions id = some session ∧
        readProcesses request.initial request.proc request.layout session = some session' ∧
        RequestProcessor.encoded knownRegistry
            (order.visit (.table [] (responseMembers request.initial session' requestId))) =
          .returned text ∧
        s' = { s with
          manager := { sessions := swapIn s.manager.sessions id session' }
          replies := s.replies ++ [(id, text)] } := by
  unfold step
  dsimp only
  rw [callManager_eq h]
  constructor
  · intro hOk
    obtain ⟨result, hResult, hOk⟩ := bind_eq_ok_iff.mp hOk
    obtain ⟨text, hText, hOk⟩ := bind_eq_ok_iff.mp hOk
    obtain ⟨session, session', hSession, hRead, rfl⟩ := manager_process_eq_ok_iff.mp hResult
    cases hOk
    exact ⟨session, session', text, hSession, hRead, Reply.sent_eq_ok_iff.mp hText, rfl⟩
  · rintro ⟨session, session', text, hSession, hRead, hText, rfl⟩
    refine bind_eq_ok_iff.mpr
      ⟨_, manager_process_eq_ok_iff.mpr ⟨session, session', hSession, hRead, rfl⟩, ?_⟩
    exact bind_eq_ok_iff.mpr ⟨text, Reply.sent_eq_ok_iff.mpr hText, rfl⟩

/-- The events of a session concern this session only. -/
theorem confined (h : rp.HasManager pm) : Confined (step rp pm) Event.sessionId view where
  frame := by
    intro s e s' d hStep hOther
    cases e with
    | start id =>
        have hId : id ≠ d := hOther
        cases hStep
        unfold view
        rw [RequestProcessor.startSession_eq h, ProcessManager.find_startSession,
          if_neg (Ne.symm hId)]
    | finish id =>
        have hId : id ≠ d := hOther
        cases hStep
        unfold view
        rw [RequestProcessor.endSession_eq h, ProcessManager.find_endSession,
          if_neg (Ne.symm hId)]
    | request id requestId request order =>
        obtain ⟨session, session', text, -, -, -, rfl⟩ := (step_request_eq_ok_iff h).mp hStep
        have hId : id ≠ d := hOther
        unfold view
        dsimp only
        rw [ProcessManager.find_swapIn, if_neg (Ne.symm hId), List.filter_append,
          List.filter_cons_of_neg (by simpa using hId), List.filter_nil, List.append_nil]
  own := by
    intro s t e s' hStep hView
    obtain ⟨hFind, hReplies⟩ := Prod.mk.inj hView
    cases e with
    | start id =>
        cases hStep
        refine ⟨_, rfl, Prod.ext ?_ hReplies⟩
        change UnorderedMap.find (rp.startSession pm id s.manager).sessions id =
          UnorderedMap.find (rp.startSession pm id t.manager).sessions id
        rw [RequestProcessor.startSession_eq h, RequestProcessor.startSession_eq h,
          ProcessManager.find_startSession, ProcessManager.find_startSession, if_pos rfl,
          if_pos rfl]
        exact congrArg (fun entry => some (Option.getD entry _)) hFind
    | finish id =>
        cases hStep
        refine ⟨_, rfl, Prod.ext ?_ hReplies⟩
        change UnorderedMap.find (rp.endSession pm id s.manager).sessions id =
          UnorderedMap.find (rp.endSession pm id t.manager).sessions id
        rw [RequestProcessor.endSession_eq h, RequestProcessor.endSession_eq h,
          ProcessManager.find_endSession, ProcessManager.find_endSession, if_pos rfl, if_pos rfl]
    | request id requestId request order =>
        obtain ⟨session, session', text, hSession, hRead, hText, rfl⟩ :=
          (step_request_eq_ok_iff h).mp hStep
        have hEntry : UnorderedMap.find s.manager.sessions id =
            UnorderedMap.find t.manager.sessions id := hFind
        refine ⟨_, (step_request_eq_ok_iff h).mpr
          ⟨session, session', text, hEntry.symm.trans hSession, hRead, hText, rfl⟩, Prod.ext ?_ ?_⟩
        · change UnorderedMap.find (swapIn s.manager.sessions id session') id =
            UnorderedMap.find (swapIn t.manager.sessions id session') id
          rw [ProcessManager.find_swapIn, ProcessManager.find_swapIn, if_pos rfl, if_pos rfl,
            hEntry]
        · change (s.replies ++ [_]).filter _ = (t.replies ++ [_]).filter _
          rw [List.filter_append, List.filter_append]
          exact congrArg (· ++ _) hReplies

/-- There is an entry for every session that lives, and for no other. -/
def EntriesLive (s : Sessions) : Prop :=
  ∀ id, (UnorderedMap.find s.manager.sessions id).isSome = true ↔ id ∈ s.live

/-- A diff never goes through: what is not undefined behaviour fails an assertion of the encoder. -/
theorem step_of_isDiff (h : rp.HasManager pm) {s s' : Sessions} {e : Event}
    (hStep : step rp pm s e = .ok s') : ¬ e.IsDiff := by
  cases e with
  | start id => exact fun hDiff => hDiff
  | finish id => exact fun hDiff => hDiff
  | request id requestId request order =>
      intro hDiff
      have hInitial : request.initial = false := hDiff
      obtain ⟨session, session', text, -, -, hText, -⟩ := (step_request_eq_ok_iff h).mp hStep
      rw [hInitial, RequestProcessor.encoded,
        diff_asserts_always session' requestId (order.reordered _)] at hText
      cases hText

/-- A list of a session that is there is answered. -/
theorem list_answered (h : rp.HasManager pm) {s : Sessions} {id : UInt32} {requestId : Int32}
    {request : Request} (hInitial : request.initial = true) {session : Session}
    (hFind : UnorderedMap.find s.manager.sessions id = some session) (order : Traversal) :
    ∃ session' text, step rp pm s (.request id requestId request order) =
      .ok { s with
        manager := { sessions := swapIn s.manager.sessions id session' }
        replies := s.replies ++ [(id, text)] } := by
  cases hRead : readProcesses request.initial request.proc request.layout session with
  | none =>
      have hDiff := (readProcesses_eq_none_iff.mp hRead).1
      rw [hInitial] at hDiff
      cases hDiff
  | some session' =>
      obtain ⟨text, hText, -⟩ :=
        quiet_iff_fits (writable_list session' requestId) (order.reordered _)
      refine ⟨session', text, (step_request_eq_ok_iff h).mpr
        ⟨session, session', text, hFind, hRead, ?_, rfl⟩⟩
      rw [hInitial, RequestProcessor.encoded, hText]

/-- Any allowed event that is no diff goes through and keeps the entries. -/
theorem step_of_allowed (h : rp.HasManager pm) {s : Sessions} {e : Event} (hLive : EntriesLive s)
    (hAllowed : Allowed s e) (hList : ¬ e.IsDiff) :
    ∃ s', step rp pm s e = .ok s' ∧ EntriesLive s' := by
  cases e with
  | start id =>
      refine ⟨_, rfl, fun other => ?_⟩
      change (UnorderedMap.find (rp.startSession pm id s.manager).sessions other).isSome = true ↔
        other ∈ id :: s.live
      rw [RequestProcessor.startSession_eq h, ProcessManager.find_startSession, List.mem_cons,
        ← hLive other]
      by_cases hOther : other = id <;> simp [hOther]
  | finish id =>
      refine ⟨_, rfl, fun other => ?_⟩
      change (UnorderedMap.find (rp.endSession pm id s.manager).sessions other).isSome = true ↔
        other ∈ s.live.filter fun other => other ≠ id
      rw [RequestProcessor.endSession_eq h, ProcessManager.find_endSession, List.mem_filter,
        ← hLive other]
      by_cases hOther : other = id <;> simp [hOther]
  | request id requestId request order =>
      obtain ⟨session, hFind⟩ := Option.isSome_iff_exists.mp ((hLive id).mpr hAllowed)
      have hInitial : request.initial = true := eq_true_of_ne_false hList
      obtain ⟨session', text, hStep⟩ := list_answered h hInitial hFind order
      refine ⟨_, hStep, fun other => ?_⟩
      change (UnorderedMap.find (swapIn s.manager.sessions id session') other).isSome = true ↔
        other ∈ s.live
      rw [ProcessManager.isSome_find_swapIn]
      exact hLive other

/-- In a run whose events are allowed, the sessions are isolated after every prefix of it if and
only if no session asks for a diff. -/
theorem isolated_iff (h : rp.HasManager pm) (events : List Event)
    (hAllowed : Always (step rp pm) Allowed {} events) :
    (∀ before, before <+: events → Isolated rp pm before) ↔ ∀ event ∈ events, ¬ event.IsDiff := by
  constructor
  · intro hIsolated
    obtain ⟨s, hRun, -⟩ := hIsolated events (List.prefix_refl events)
    exact forall_of_run (fun hStep => step_of_isDiff h hStep) hRun
  · intro hNone before hBefore
    have hStart : EntriesLive {} := fun id => by simp
    obtain ⟨s, hRun, hLive⟩ := (hAllowed.and (always_of_mem hNone)).runs
      (fun s e hLive hBoth => step_of_allowed h hLive hBoth.1 hBoth.2) hStart hBefore
    exact ⟨s, hRun, hLive, fun id => (confined h).project id before hRun rfl⟩

end

/-- A request processor that knows nobody but the process manager. -/
def managerOnly : RequestProcessor Unit :=
  ⟨[(ascii "list_processes", ()), (ascii "diff_processes", ())]⟩

theorem hasManager_managerOnly : managerOnly.HasManager () := by
  constructor <;> decide

/-- A request for a list or a diff while these processes are there. -/
def asking (initial : Bool) (pids : List Int32) : Request := ⟨initial, .of pids, .inOrder _⟩

/-- Two clients that list the processes in turns. -/
def lists : List Event :=
  [.start 1, .start 2, .request 1 1 (asking true [7]) .inOrder,
    .request 2 1 (asking true [7, 9]) .inOrder, .request 1 2 (asking true [9]) .inOrder, .finish 2]

theorem allowed_lists : Always (step managerOnly ()) Allowed {} lists := by
  refine .step List.not_mem_nil rfl (.step ?_ rfl ⟨?_, fun s₁ hFirst => ⟨?_, fun s₂ hSecond =>
    ⟨?_, fun s₃ hThird => ⟨?_, fun _ _ => trivial⟩⟩⟩⟩)
  · show (2 : UInt32) ∉ [1]
    decide
  · show (1 : UInt32) ∈ [2, 1]
    decide
  all_goals
    obtain ⟨_, _, _, -, -, -, rfl⟩ := (step_request_eq_ok_iff hasManager_managerOnly).mp hFirst
  · show (2 : UInt32) ∈ [2, 1]
    decide
  all_goals
    obtain ⟨_, _, _, -, -, -, rfl⟩ := (step_request_eq_ok_iff hasManager_managerOnly).mp hSecond
  · show (1 : UInt32) ∈ [2, 1]
    decide
  · obtain ⟨_, _, _, -, -, -, rfl⟩ := (step_request_eq_ok_iff hasManager_managerOnly).mp hThird
    show (2 : UInt32) ∈ [2, 1]
    decide

theorem isolated_iff_lists :
    (∀ before, before <+: lists → Isolated managerOnly () before) ↔
      ∀ event ∈ lists, ¬ event.IsDiff :=
  isolated_iff hasManager_managerOnly lists allowed_lists

/-- Two clients, one of which asks for a diff before it has listed anything. -/
def diffElsewhere : List Event :=
  [.start 1, .start 2, .request 2 1 (asking false [7]) .inOrder,
    .request 1 1 (asking true [7]) .inOrder]

/-- The diff of one client ends the run of the other, whose request would have been answered. -/
theorem diff_ends_all :
    managerOnly.HasManager () ∧ Always (step managerOnly ()) Allowed {} diffElsewhere ∧
      (∃ s text,
        run (step managerOnly ()) {}
          (diffElsewhere.filter fun event => event.sessionId = 1) = .ok s ∧
        (view 1 s).2 = [(1, text)]) ∧
      ¬ ∀ before, before <+: diffElsewhere → Isolated managerOnly () before := by
  have hDiff (s s' : Sessions) :
      step managerOnly () s (.request 2 1 (asking false [7]) .inOrder) ≠ .ok s' :=
    fun hStep => step_of_isDiff hasManager_managerOnly hStep rfl
  refine ⟨hasManager_managerOnly, ?_, ?_, fun hIsolated => ?_⟩
  · refine .step List.not_mem_nil rfl (.step ?_ rfl ⟨?_, fun s hStep => (hDiff _ s hStep).elim⟩)
    · show (2 : UInt32) ∉ [1]
      decide
    · show (2 : UInt32) ∈ [2, 1]
      decide
  · let started : Sessions := { manager := { sessions := [(1, .new 1)] }, live := [1] }
    obtain ⟨session, text, hStep⟩ := @list_answered _ _ _ _ hasManager_managerOnly started 1 1
      (asking true [7]) rfl _ rfl .inOrder
    have hStart : run (step managerOnly ()) {} [.start 1] = .ok started := rfl
    have hSplit : diffElsewhere.filter (fun event => event.sessionId = 1) =
        [.start 1] ++ [.request 1 1 (asking true [7]) .inOrder] := rfl
    have hRun : run (step managerOnly ()) {}
        (diffElsewhere.filter fun event => event.sessionId = 1) =
          .ok { started with
            manager := { sessions := swapIn started.manager.sessions 1 session }
            replies := started.replies ++ [(1, text)] } := by
      rw [hSplit, run_append _ hStart, run_of_step hStep]
      rfl
    refine ⟨_, text, hRun, ?_⟩
    simp [view, started]
  · obtain ⟨s, hRun, -⟩ := hIsolated diffElsewhere (List.prefix_refl _)
    obtain ⟨s₁, -, hRun⟩ := run_cons_eq_ok_iff.mp hRun
    obtain ⟨s₂, -, hRun⟩ := run_cons_eq_ok_iff.mp hRun
    obtain ⟨s₃, hStep, -⟩ := run_cons_eq_ok_iff.mp hRun
    exact hDiff s₂ s₃ hStep

end Sessions

end Kexplorer.Server

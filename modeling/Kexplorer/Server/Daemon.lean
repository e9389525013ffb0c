import Kexplorer.Process.Listing
import Kexplorer.Server.Dispatch
import Kexplorer.Server.SessionHandler
import Kexplorer.Server.Sessions

/-!
# The server put together

`main` constructs the request processor and its two handlers, the one for the commands
of the server itself and the process manager.  Their state is a `Daemon`.

Every call of a handler meets the machine in another state: what the kernel shows then,
and the order in which hash tables are laid out and visited.  `machines` has them one
behind the other.

`Replies` says what a command is answered, and `replies_of_simple` that it is answered
so if a client asks for it by `Request::simple`.  The order in which `m_handlers` is
visited is left open.
-/

namespace Kexplorer.Server

open Kexplorer.Json Kexplorer.Process Kexplorer.Props Kexplorer.Util

/-- What a call of a handler meets outside the program; the tables of its response are visited in
some order. -/
structure Machine (Double : Type) extends Traversal where
  kernel : Kernel Double
  layout : Layout (Int32 × ProcessInfo)

/-- The objects that `main` registers. -/
inductive Handler
  | globalHandler
  | processManager
  deriving DecidableEq

/-- The state of the handlers. -/
structure Daemon where
  manager : ProcessManager := {}
  /-- Whether the exit condition was set. -/
  exit : Bool := false
  /-- How often a handler was called. -/
  calls : Nat := 0
  /-- Whether a call ran into an assertion or undefined behaviour. -/
  failed : Bool := false

namespace Daemon

section

variable {α : Type} (machines : Nat → Machine α) (globalHandler : GlobalCmdHandler)

/-- `GlobalCmdHandler::process`. -/
def processGlobal (sessionId : UInt32) (key : CString) (id : Int32) (request response : PropertyBag)
    (s : Daemon) : Except Bytes Bool × PropertyBag × Daemon :=
  let result := globalHandler.process sessionId key id request response s.exit
  (result.1, (machines s.calls).visit result.2.1,
    { s with exit := result.2.2, calls := s.calls + 1 })

/-- `ProcessManager::process`. -/
def processManager (sessionId : UInt32) (key : CString) (id : Int32)
    (_request response : PropertyBag)
    (s : Daemon) : Except Bytes Bool × PropertyBag × Daemon :=
  let machine := machines s.calls
  match s.manager.process sessionId key id machine.kernel.view machine.layout response with
  | .error _ => (.ok false, response, { s with calls := s.calls + 1, failed := true })
  | .ok result =>
      (.ok result.1, machine.visit result.2.1,
        { s with manager := result.2.2, calls := s.calls + 1 })

theorem processGlobal_table (sessionId : UInt32) (key : CString) (id : Int32)
    (request : PropertyBag)
    (members : List (Bytes × PropertyBag)) (s : Daemon) :
    ∃ members', (processGlobal machines globalHandler sessionId key id request (.table [] members)
      s).2.1 = .table [] members' := by
  obtain ⟨members', hTable⟩ := globalHandler.keepsTable sessionId key id request members s.exit
  rw [processGlobal]
  dsimp only
  rw [hTable]
  exact (machines s.calls).visit_table [] members'

/-- A list adds to the table that it is given. -/
theorem respond_table (initial : Bool) (session : Session) (id : Int32)
    (members : List (Bytes × PropertyBag)) :
    ∃ members', respond initial session id (.table [] members) = some (.table [] members') := by
  unfold respond
  rw [processArray_eq, deletedArray_eq]
  cases initial with
  | true => exact ⟨_, rfl⟩
  | false => exact ⟨_, rfl⟩

theorem listProcesses_table {initial : Bool} {proc : ProcView}
    {layout : Layout (Int32 × ProcessInfo)} {session : Session} {id : Int32}
    {members : List (Bytes × PropertyBag)} {result : Session × PropertyBag}
    (h : listProcesses initial proc layout session id (.table [] members) = some result) :
    ∃ members', result.2 = .table [] members' := by
  obtain ⟨session', hSession, h⟩ := Option.bind_eq_some_iff.mp h
  obtain ⟨members', hTable⟩ := respond_table initial session' id members
  rw [hTable] at h
  cases h
  exact ⟨members', rfl⟩

theorem manager_table {manager : ProcessManager} {sessionId : UInt32} {key : CString} {id : Int32}
    {proc : ProcView} {layout : Layout (Int32 × ProcessInfo)} {members : List (Bytes × PropertyBag)}
    {result : Bool × PropertyBag × ProcessManager}
    (h : manager.process sessionId key id proc layout (.table [] members) = .ok result) :
    ∃ members', result.2.1 = .table [] members' := by
  unfold ProcessManager.process at h
  split at h
  · cases h
  · rename_i session _
    split at h
    · cases h
    · cases h
      exact ⟨members, rfl⟩
    · rename_i hSession
      cases h
      unfold ProcessManager.processSession at hSession
      split at hSession
      · obtain ⟨result, hList, hEq⟩ := Option.map_eq_some_iff.mp hSession
        cases hEq
        exact listProcesses_table hList
      · split at hSession
        · obtain ⟨result, hList, hEq⟩ := Option.map_eq_some_iff.mp hSession
          cases hEq
          exact listProcesses_table hList
        · cases hSession

theorem processManager_table (sessionId : UInt32) (key : CString) (id : Int32)
    (request : PropertyBag) (members : List (Bytes × PropertyBag)) (s : Daemon) :
    ∃ members', (processManager machines sessionId key id request (.table [] members) s).2.1 =
      .table [] members' := by
  rw [processManager]
  rcases hResult : s.manager.process sessionId key id (machines s.calls).kernel.view
    (machines s.calls).layout (.table [] members) with fault | result
  · exact ⟨members, rfl⟩
  · obtain ⟨members', hTable⟩ := manager_table hResult
    dsimp only
    rw [hTable]
    exact (machines s.calls).visit_table [] members'

/-- The handlers behind their interface. -/
def handlers : Handler → IRequestHandler Daemon
  | .globalHandler =>
      ⟨processGlobal machines globalHandler, processGlobal_table machines globalHandler⟩
  | .processManager => ⟨processManager machines, processManager_table machines⟩

/-- The constructors of the handlers, in the order of `main`. -/
def construction : List (RequestProcessor.Registration Handler) :=
  [.registerHandler (literal "stop") .globalHandler,
    .registerHandler (literal "version") .globalHandler,
    .registerHandler (literal "list_processes") .processManager,
    .registerHandler (literal "diff_processes") .processManager]

variable (strtod : Bytes → Option Json.Double) (rp : RequestProcessor Handler)

/-- `RequestProcessor::process`; a call that fails an assertion returns nothing. -/
def process (sessionId : UInt32) (request : Bytes) (length : Nat) (s : Daemon) :
    Except Bytes Bytes × Daemon :=
  match rp.process knownRegistry strtod (handlers machines globalHandler) sessionId request length s
    with
  | (.returned text, s) => (.ok text, s)
  | (.terminated, s) => (.ok [], { s with failed := true })

/-- The request processor that the session handlers call. -/
def processor : IRequestProcessor Daemon where
  process := process machines globalHandler strtod rp
  returns sessionId request length s := by
    unfold process
    split
    · exact ⟨_, rfl⟩
    · exact ⟨_, rfl⟩

end

/-- `RequestProcessor::startSession`. -/
def startSession (rp : RequestProcessor Handler) (id : UInt32) (s : Daemon) : Daemon :=
  { s with manager := rp.startSession .processManager id s.manager }

/-- `RequestProcessor::endSession`. -/
def endSession (rp : RequestProcessor Handler) (id : UInt32) (s : Daemon) : Daemon :=
  { s with manager := rp.endSession .processManager id s.manager }

/-! ## The registered handlers -/

/-- The handlers of a command, whatever the order of the multimap. -/
def handlersOf (key : Bytes) : List Handler :=
  if key = ascii "stop" ∨ key = ascii "version" then [.globalHandler]
  else if key = ascii "list_processes" ∨ key = ascii "diff_processes" then [.processManager]
  else []

theorem literal_bytes : (literal "stop").bytes = ascii "stop" ∧
    (literal "version").bytes = ascii "version" ∧
    (literal "list_processes").bytes = ascii "list_processes" ∧
    (literal "diff_processes").bytes = ascii "diff_processes" := by
  decide

theorem equalRange_eq {rp : RequestProcessor Handler}
    (h : RequestProcessor.After construction rp) (key : Bytes) :
    rp.equalRange key = handlersOf key := by
  have hPerm : (rp.equalRange key).Perm (handlersOf key) := by
    rw [List.perm_iff_count]
    intro handler
    rw [RequestProcessor.count_equalRange, h.count_handlers]
    simp only [RequestProcessor.registrations, construction, List.foldl_cons, List.foldl_nil,
      RequestProcessor.Registration.counted, handlersOf]
    by_cases hStop : key = ascii "stop"
    · subst hStop
      cases handler <;> decide
    · by_cases hVersion : key = ascii "version"
      · subst hVersion
        cases handler <;> decide
      · by_cases hList : key = ascii "list_processes"
        · subst hList
          cases handler <;> decide
        · by_cases hDiff : key = ascii "diff_processes"
          · subst hDiff
            cases handler <;> decide
          · have hNames : ascii "stop" ≠ key ∧ ascii "version" ≠ key ∧
                ascii "list_processes" ≠ key ∧ ascii "diff_processes" ≠ key :=
              ⟨Ne.symm hStop, Ne.symm hVersion, Ne.symm hList, Ne.symm hDiff⟩
            rw [literal_bytes.1, literal_bytes.2.1, literal_bytes.2.2.1, literal_bytes.2.2.2]
            simp [hStop, hVersion, hList, hDiff, hNames]
  unfold handlersOf at hPerm ⊢
  by_cases hGlobal : key = ascii "stop" ∨ key = ascii "version"
  · rw [if_pos hGlobal] at hPerm ⊢
    exact List.perm_singleton.mp hPerm
  · rw [if_neg hGlobal] at hPerm ⊢
    by_cases hManager : key = ascii "list_processes" ∨ key = ascii "diff_processes"
    · rw [if_pos hManager] at hPerm ⊢
      exact List.perm_singleton.mp hPerm
    · rw [if_neg hManager] at hPerm ⊢
      exact List.perm_nil.mp hPerm

/-- The process manager is registered for both its commands. -/
theorem hasManager {rp : RequestProcessor Handler}
    (h : RequestProcessor.After construction rp) : rp.HasManager .processManager where
  list := by
    rw [equalRange_eq h]
    decide
  diff := by
    rw [equalRange_eq h]
    decide

theorem find_startSession {rp : RequestProcessor Handler}
    (h : RequestProcessor.After construction rp) (id : UInt32) (s : Daemon) (other : UInt32) :
    UnorderedMap.find (startSession rp id s).manager.sessions other =
      if other = id then some ((UnorderedMap.find s.manager.sessions id).getD (.new id))
      else UnorderedMap.find s.manager.sessions other := by
  rw [startSession, RequestProcessor.startSession_eq (hasManager h)]
  exact s.manager.find_startSession id other

theorem find_endSession {rp : RequestProcessor Handler}
    (h : RequestProcessor.After construction rp) (id : UInt32) (s : Daemon) (other : UInt32) :
    UnorderedMap.find (endSession rp id s).manager.sessions other =
      if other = id then none else UnorderedMap.find s.manager.sessions other := by
  rw [endSession, RequestProcessor.endSession_eq (hasManager h)]
  exact s.manager.find_endSession id other

/-! ## What a command is answered -/

/-- What is behind the terminator of a request is not read. -/
theorem cstr_of_take {memory text : Bytes} (h : memory.take (text.length + 1) = text ++ [0]) :
    cstr memory = cstr text := by
  have hMemory : memory = text ++ 0 :: memory.drop (text.length + 1) := by
    have hAll := List.take_append_drop (text.length + 1) memory
    rw [h, List.append_assoc, List.singleton_append] at hAll
    exact hAll.symm
  rw [hMemory, cstr, cstr, List.takeWhile_append]
  split
  · rename_i hLength
    rw [List.takeWhile_cons_of_neg (by simp), List.append_nil]
    exact ((List.takeWhile_prefix _).eq_of_length hLength).symm
  · rfl

/-- Nor is it parsed. -/
theorem parse_of_take (strtod : Bytes → Option Json.Double) {memory text : Bytes}
    (h : memory.take (text.length + 1) = text ++ [0]) :
    parse strtod memory = parse strtod text := by
  unfold parse
  rw [cstr_of_take h]

/-- The members of a request of `Request::simple`. -/
def simpleMembers (id : Int32) (command : CString) : List (Bytes × Value Empty) :=
  [(Request.Id.idstr.bytes, .integer (.ofInt32 id)),
    (Request.Command.idstr.bytes, .string command.bytes)]

/-- The bag of some scalars. -/
def scalars (fields : List (PropertyInfo × Any)) : PropertyBag := .table [] (fields.map scalar)

/-- Scalars under different names are added one behind the other. -/
theorem addAll_eq {fields : List (PropertyInfo × Any)}
    (hNames : (fields.map fun field => field.1.idstr.bytes).Nodup) :
    addAll fields (.table [] []) = scalars fields := by
  have hAdd : ∀ {members : List (Bytes × PropertyBag)},
      (∀ field ∈ fields, field.1.idstr.bytes ∉ members.map Prod.fst) →
        addAll fields (.table [] members) = .table [] (members ++ fields.map scalar) := by
    induction fields with
    | nil => simp [addAll]
    | cons field fields ih =>
        intro members hNew
        obtain ⟨hField, hFields⟩ := List.nodup_cons.mp hNames
        rw [addAll, List.foldl_cons, addToTable_of_notMem (hNew field List.mem_cons_self),
          Option.getD_some, ← addAll, ih hFields, List.append_assoc]
        · rfl
        · intro other hOther
          rw [List.map_append, List.mem_append, List.map_singleton, List.mem_singleton, not_or]
          refine ⟨hNew other (List.mem_cons_of_mem _ hOther), fun hEq => hField ?_⟩
          exact List.mem_map.mpr ⟨other, hOther, hEq⟩
  exact hAdd (by simp)

/-- Scalars of registered properties are encoded as an object of their values. -/
theorem renders_scalars {fields : List (PropertyInfo × Any)}
    (hNames : (fields.map fun field => field.1.idstr.bytes).Nodup)
    (hFields : ∀ field ∈ fields, field.1 ∈ knownProps ∧ field.2.type = field.1.type ∧
      field.2.type.isWritten = true ∧ field.1.idstr.bytes ≠ []) {visited : PropertyBag}
    (hVisited : Reordered (scalars fields) visited) :
    ∃ text, RequestProcessor.encoded knownRegistry visited = .returned text ∧
      Renders text (.object (fields.map fun field => (field.1.idstr.bytes, field.2.toJson))) := by
  have hWritable : (writable knownRegistry).Holds (scalars fields) := by
    refine ⟨?_, Shape.members_iff.mpr fun m hm => ?_⟩
    · rw [List.map_map]
      exact hNames
    · obtain ⟨field, hField, rfl⟩ := List.mem_map.mp hm
      obtain ⟨hKnown, hType, hWritten, hName⟩ := hFields field hField
      exact ⟨⟨rfl, hName⟩, isWritten_field (.inl hKnown) hType hWritten⟩
  obtain ⟨text, hText, hRenders⟩ := renders_of_writable hWritable hVisited
  refine ⟨text, by rw [RequestProcessor.encoded, hText], ?_⟩
  rw [valueOf, memberValues_eq_map, List.map_map] at hRenders
  exact hRenders

/-- What a response says of success, and more. -/
def success (id : Int32) (more : List (PropertyInfo × Any)) : List (PropertyInfo × Any) :=
  (Request.Id, .int id) :: (Response.Status, .string Response.Success.bytes) :: more

/-- The object of some scalars. -/
def objectOf (fields : List (PropertyInfo × Any)) : Value Empty :=
  .object (fields.map fun field => (field.1.idstr.bytes, field.2.toJson))

/-- What a response says of a command that is not supported. -/
def failure (id : Int32) : List (PropertyInfo × Any) :=
  [(Request.Id, .int id), (Response.Status, .string Response.Fail.bytes),
    (Response.Reason, .string (literal "Unsupported request").bytes)]

/-- What a command other than `diff_processes` is answered when the kernel shows some processes. -/
def Replies (version : Bytes) (entries : List Entry) (id : Int32) (command : CString)
    (reply : Bytes) : Prop :=
  if command = literal "stop" then Renders reply (objectOf (success id []))
  else if command = literal "version" then
    Renders reply (objectOf (success id [(Response.Version, .string version)]))
  else if command = literal "list_processes" then
    ∃ order, order.Perm entries ∧ Renders reply (listing id order)
  else Renders reply (objectOf (failure id))

variable {α : Type} {machines : Nat → Machine α} {globalHandler : GlobalCmdHandler}
  {strtod : Bytes → Option Json.Double} {rp : RequestProcessor Handler}

/-- A command with one handler is answered by it. -/
theorem process_of_handler (hStarted : RequestProcessor.After construction rp) {memory : Bytes}
    {members : List (Bytes × PropertyBag)} {id : Int32} {command : CString}
    (hAsks : RequestProcessor.Asks knownRegistry strtod memory [] members id command.bytes)
    {handler : Handler} (hHandler : handlersOf command.bytes = [handler]) {sessionId : UInt32}
    {answer : Bool} {response : PropertyBag} {s s' : Daemon}
    (hCall : (handlers machines globalHandler handler).process sessionId command id
      (.table [] members) (.table [] []) s = (.ok answer, response, s')) (length : Nat) :
    rp.process knownRegistry strtod (handlers machines globalHandler) sessionId memory length s =
      (if answer then RequestProcessor.encoded knownRegistry response
        else RequestProcessor.unsupported id, s') := by
  have hAnswers : RequestProcessor.answers (handlers machines globalHandler) sessionId
      (.ofMemory command.bytes) id (.table [] members) (rp.equalRange command.bytes)
        (.table [] []) s =
        some ([(handler, answer)], response, s') := by
    rw [equalRange_eq hStarted, hHandler, CString.ofMemory_bytes]
    simp only [RequestProcessor.answers, hCall, Option.map_some]
  exact RequestProcessor.process_of_answers hAsks length hAnswers

/-- What a call leaves of the state for later calls. -/
structure Leaves (command : CString) (s s' : Daemon) : Prop where
  failed : s'.failed = s.failed
  exit : s'.exit = (s.exit || decide (command = literal "stop"))
  sessions : ∀ id, (UnorderedMap.find s'.manager.sessions id).isSome =
    (UnorderedMap.find s.manager.sessions id).isSome

/-- The commands of the server itself. -/
theorem process_global (hStarted : RequestProcessor.After construction rp) {memory : Bytes}
    {members : List (Bytes × PropertyBag)} {id : Int32} {command : CString}
    (hAsks : RequestProcessor.Asks knownRegistry strtod memory [] members id command.bytes)
    {more : List (PropertyInfo × Any)} (sessionId : UInt32) (length : Nat) (s : Daemon)
    (hCommand : command = literal "stop" ∧ more = [] ∨
      command = literal "version" ∧ more = [(Response.Version, .string globalHandler.version)]) :
    ∃ reply s', process machines globalHandler strtod rp sessionId memory length s =
        (.ok reply, s') ∧ Renders reply (objectOf (success id more)) ∧ Leaves command s s' := by
  let s' : Daemon :=
    { s with exit := s.exit || decide (command = literal "stop"), calls := s.calls + 1 }
  have hVersion : literal "version" ≠ literal "stop" := by decide
  have hNames : ((success id more).map fun field => field.1.idstr.bytes).Nodup := by
    rcases hCommand with ⟨-, rfl⟩ | ⟨-, rfl⟩
    · exact (by decide : ([Request.Id, Response.Status].map fun info => info.idstr.bytes).Nodup)
    · exact (by decide : ([Request.Id, Response.Status, Response.Version].map
        fun info => info.idstr.bytes).Nodup)
  have hFields : ∀ field ∈ success id more, field.1 ∈ knownProps ∧ field.2.type = field.1.type ∧
      field.2.type.isWritten = true ∧ field.1.idstr.bytes ≠ [] := by
    have hName : Response.Version.idstr.bytes ≠ [] := by decide
    have hScalars := responseScalar_spec id
    rcases hCommand with ⟨-, rfl⟩ | ⟨-, rfl⟩
    · exact hScalars
    · rw [success, List.forall_mem_cons, List.forall_mem_cons, List.forall_mem_singleton]
      exact ⟨hScalars _ List.mem_cons_self, hScalars _ (List.mem_cons_of_mem _ List.mem_cons_self),
        by simp [knownProps], rfl, rfl, hName⟩
  have hHandler : handlersOf command.bytes = [.globalHandler] := by
    rcases hCommand with ⟨rfl, -⟩ | ⟨rfl, -⟩ <;> decide
  have hAdd := addAll_eq hNames
  have hCall : (handlers machines globalHandler .globalHandler).process sessionId command id
      (.table [] members) (.table [] []) s =
        (.ok true, (machines s.calls).visit (scalars (success id more)), s') := by
    change processGlobal machines globalHandler sessionId command id _ _ s = _
    rw [processGlobal, GlobalCmdHandler.process]
    rcases hCommand with ⟨rfl, rfl⟩ | ⟨rfl, rfl⟩
    · rw [if_pos rfl, ← hAdd]
      simp [s', success]
    · rw [if_neg hVersion, if_pos rfl, ← hAdd]
      simp [s', success, hVersion]
  obtain ⟨reply, hReply, hRenders⟩ :=
    renders_scalars hNames hFields ((machines s.calls).reordered (scalars (success id more)))
  refine ⟨reply, s', ?_, hRenders, rfl, rfl, fun _ => rfl⟩
  rw [process, process_of_handler hStarted hAsks hHandler hCall length, if_pos rfl, hReply]

/-- A list. -/
theorem process_list (hStarted : RequestProcessor.After construction rp) {memory : Bytes}
    {members : List (Bytes × PropertyBag)} {id : Int32}
    (hAsks : RequestProcessor.Asks knownRegistry strtod memory [] members id
      (literal "list_processes").bytes) {sessionId : UInt32} (length : Nat) {s : Daemon}
    {entries : List Entry} (hMounted : (machines s.calls).kernel.Mounted entries)
    (hSession : (UnorderedMap.find s.manager.sessions sessionId).isSome = true) :
    ∃ reply s', process machines globalHandler strtod rp sessionId memory length s =
        (.ok reply, s') ∧
      (∃ order, order.Perm entries ∧ Renders reply (listing id order)) ∧
      Leaves (literal "list_processes") s s' := by
  obtain ⟨session, hFind⟩ := Option.isSome_iff_exists.mp hSession
  obtain ⟨session', response, hList, hTexts⟩ :=
    hMounted.lists (machines s.calls).layout session id
  obtain ⟨reply, order, hReply, hOrder, hRenders⟩ :=
    hTexts _ ((machines s.calls).reordered (.table [] response))
  let s' : Daemon :=
    { s with
      manager := { sessions := swapIn s.manager.sessions sessionId session' }
      calls := s.calls + 1 }
  have hProcess : s.manager.process sessionId (literal "list_processes") id
      (machines s.calls).kernel.view (machines s.calls).layout (.table [] []) =
        .ok (true, .table [] response, s'.manager) := by
    rw [ProcessManager.process, hFind]
    dsimp only
    rw [ProcessManager.processSession, if_pos rfl, hList]
    rfl
  have hCall : (handlers machines globalHandler .processManager).process sessionId
      (literal "list_processes") id (.table [] members) (.table [] []) s =
        (.ok true, (machines s.calls).visit (.table [] response), s') := by
    change processManager machines sessionId _ id (.table [] members) _ s = _
    rw [processManager, hProcess]
  refine ⟨reply, s', ?_, ⟨order, hOrder, hRenders⟩, rfl, ?_, fun other => ?_⟩
  · rw [process, process_of_handler hStarted hAsks (by decide) hCall length, if_pos rfl,
      RequestProcessor.encoded, hReply]
  · simp [s', show literal "list_processes" ≠ literal "stop" by decide]
  · exact ProcessManager.isSome_find_swapIn s.manager.sessions sessionId other session'

end Daemon

end Kexplorer.Server

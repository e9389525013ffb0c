import Kexplorer.Server.Daemon

/-!
# The requests that end the server

A call that fails an assertion, or that throws out of a function that is `noexcept`, ends
the server with all its sessions.  `Fatal` tells the requests with such a call from their
text: an object whose id is an array or an object, because `property()` is `noexcept`, or
one that asks for `diff_processes`, because the encoder does not take the response.

`judged` says that there are no others, whatever the client sends, as long as the kernel
shows its processes and the session is there.
-/

namespace Kexplorer.Server

open Kexplorer.Json Kexplorer.Process Kexplorer.Props Kexplorer.Util

namespace RequestProcessor

/-! ## The id of any request -/

variable {reg : Registry} {members : List (Bytes × JsonValue)}

/-- An id that is a container is taken for a property. -/
theorem requestIdOf_container {v : JsonValue}
    (hFind : UnorderedMap.find members Request.Id.idstr.bytes = some v) (hNot : ¬ IsScalar v) :
    requestIdOf (keptMembers reg members []) = .error .terminated := by
  unfold requestIdOf
  rw [find_kept, hFind, Option.map_some]
  cases v with
  | array items => rfl
  | object members' => rfl
  | _ => exact absurd ⟨fun _ h => (by cases h), fun _ h => (by cases h)⟩ hNot

/-- A number of 32 bits is the id, and without one it is 0. -/
theorem requestIdOf_int (hRegistered : reg.Registered Request.Id)
    (h : ∀ v, UnorderedMap.find members Request.Id.idstr.bytes = some v →
      (getAs .int v).isSome = true) :
    ∃ id, requestIdOf (keptMembers reg members []) = .ok id := by
  cases hFind : UnorderedMap.find members Request.Id.idstr.bytes with
  | none =>
      refine ⟨0, ?_⟩
      unfold requestIdOf
      rw [find_kept, hFind]
      rfl
  | some v =>
      obtain ⟨value, hValue⟩ := Option.isSome_iff_exists.mp (h v hFind)
      obtain ⟨hType, hRepresents⟩ := getAs_eq_some_iff.mp hValue
      cases value with
      | int id =>
          cases hRepresents
          exact ⟨id, requestIdOf_kept hRegistered hFind⟩
      | other type => exact hRepresents.elim
      | _ => cases hType

/-- Any other scalar leaves a property without a value. -/
theorem requestIdOf_mistyped (hRegistered : reg.Registered Request.Id) {v : JsonValue}
    (hFind : UnorderedMap.find members Request.Id.idstr.bytes = some v) (hScalar : IsScalar v)
    (hNone : getAs .int v = none) :
    requestIdOf (keptMembers reg members []) = .error (caught badAnyCast) := by
  have hKept : keptOf reg Request.Id.idstr v = .property Request.Id.idstr.bytes {} := by
    have hProperty : keptProperty reg Request.Id.idstr v = {} := by
      rw [keptProperty, propertyOf, hRegistered.2, Option.bind_some]
      change (Option.map _ (getAs .int v)).getD ({} : Property) = _
      rw [hNone]
      rfl
    cases v with
    | array items => exact absurd rfl (hScalar.1 items)
    | object members' => exact absurd rfl (hScalar.2 members')
    | _ => exact congrArg _ hProperty
  unfold requestIdOf
  rw [find_kept, hFind, Option.map_some, hKept]

end RequestProcessor

namespace Daemon

/-- An object that ends the server: its id is a container, or it asks for a diff and its id is a
number of 32 bits or missing. -/
def Ends (members : List (Bytes × JsonValue)) : Prop :=
  (∃ v, UnorderedMap.find members Request.Id.idstr.bytes = some v ∧ ¬ IsScalar v) ∨
    (∀ v, UnorderedMap.find members Request.Id.idstr.bytes = some v →
        (getAs .int v).isSome = true) ∧
      UnorderedMap.find members Request.Command.idstr.bytes =
        some (.string (literal "diff_processes").bytes)

/-- A request that ends the server. -/
def Fatal (strtod : Bytes → Option Json.Double) (text : Bytes) : Prop :=
  ∃ members, parse strtod text = .ok (.object members) ∧ Ends members

/-- No command is needed. -/
example (strtod : Bytes → Option Json.Double) :
    Fatal strtod (Value.render (.object [(Request.Id.idstr.bytes, .array [])])) :=
  ⟨_, parse_render strtod _, .inl ⟨_, rfl, fun h => h.1 _ rfl⟩⟩

variable {α : Type} {machines : Nat → Machine α} {globalHandler : GlobalCmdHandler}
  {strtod : Bytes → Option Json.Double} {rp : RequestProcessor Handler}

/-- The sessions that there are. -/
def SameSessions (s s' : Daemon) : Prop :=
  ∀ id, (UnorderedMap.find s'.manager.sessions id).isSome =
    (UnorderedMap.find s.manager.sessions id).isSome

/-- The process manager fails at a diff, or it leaves a response that the encoder does not take. -/
theorem manager_diff (sessionId : UInt32) (id : Int32) (request : PropertyBag) (s : Daemon) :
    ∃ answer response s',
      processManager machines sessionId (literal "diff_processes") id request (.table [] []) s =
        (.ok answer, response, s') ∧
      (s'.failed = true ∨
        answer = true ∧ RequestProcessor.encoded knownRegistry response = .terminated) ∧
      SameSessions s s' := by
  unfold processManager ProcessManager.process
  dsimp only
  cases hFind : UnorderedMap.find s.manager.sessions sessionId with
  | none => exact ⟨_, _, _, rfl, .inl rfl, fun _ => rfl⟩
  | some session =>
      have hDiff : ProcessManager.processSession session (literal "diff_processes") id
          (machines s.calls).kernel.view (machines s.calls).layout (.table [] []) =
            (listProcesses false (machines s.calls).kernel.view (machines s.calls).layout session id
              (.table [] [])).map some := by
        rw [ProcessManager.processSession, if_neg (by decide), if_pos rfl]
      dsimp only
      rw [hDiff]
      cases hList : listProcesses false (machines s.calls).kernel.view (machines s.calls).layout
          session id (.table [] []) with
      | none => exact ⟨_, _, _, rfl, .inl rfl, fun _ => rfl⟩
      | some result =>
          obtain ⟨session', -, hResponse⟩ := Option.bind_eq_some_iff.mp hList
          rw [respond_eq] at hResponse
          cases hResponse
          refine ⟨_, _, _, rfl, .inr ⟨rfl, ?_⟩, fun other =>
            ProcessManager.isSome_find_swapIn s.manager.sessions sessionId other session'⟩
          rw [RequestProcessor.encoded,
            diff_asserts_always session' id ((machines s.calls).reordered _)]

/-- A diff ends the server, whatever the kernel shows and whether there is a session or not. -/
theorem process_diff (hStarted : RequestProcessor.After construction rp) {memory : Bytes}
    {members : List (Bytes × PropertyBag)} {id : Int32}
    (hAsks : RequestProcessor.Asks knownRegistry strtod memory [] members id
      (literal "diff_processes").bytes) (sessionId : UInt32) (length : Nat) (s : Daemon) :
    (process machines globalHandler strtod rp sessionId memory length s).2.failed = true ∧
      SameSessions s (process machines globalHandler strtod rp sessionId memory length s).2 := by
  obtain ⟨answer, response, s', hManager, hEnd, hSame⟩ :=
    @manager_diff α machines sessionId id (.table [] members) s
  have hCall : (handlers machines globalHandler .processManager).process sessionId
      (literal "diff_processes") id (.table [] members) (.table [] []) s =
        (.ok answer, response, s') := hManager
  rw [process, process_of_handler hStarted hAsks (by decide) hCall length]
  rcases hEnd with hFailed | ⟨rfl, hTerminated⟩
  · -- the call returns as if nothing had happened
    split <;> rename_i hReply <;> cases (Prod.mk.inj hReply).2
    · exact ⟨hFailed, hSame⟩
    · exact ⟨rfl, hSame⟩
  · rw [if_pos rfl, hTerminated]
    exact ⟨rfl, hSame⟩

/-! ## Any request -/

/-- The failure flag afterwards is that of before and of the request, and the sessions are those of
before. -/
structure Judged (strtod : Bytes → Option Json.Double) (text : Bytes) (s s' : Daemon) : Prop where
  failed_iff : s'.failed = true ↔ s.failed = true ∨ Fatal strtod text
  sessions : SameSessions s s'

theorem Judged.fatal {text : Bytes} {s s' : Daemon} (h : Fatal strtod text)
    (hFailed : s'.failed = true) (hSame : SameSessions s s') : Judged strtod text s s' :=
  ⟨iff_of_true hFailed (.inr h), hSame⟩

theorem Judged.harmless {text : Bytes} {s s' : Daemon} (h : ¬ Fatal strtod text)
    (hFailed : s'.failed = s.failed) (hSame : SameSessions s s') : Judged strtod text s s' :=
  ⟨by rw [hFailed, or_iff_left h], hSame⟩

/-- A request that is refused. -/
theorem Judged.refused {text : Bytes} {sessionId : UInt32} {length : Nat} {s : Daemon}
    (h : ¬ Fatal strtod text) (id : Int32) (reason : CString)
    (hProcess : rp.process knownRegistry strtod (handlers machines globalHandler) sessionId text
      length s = (RequestProcessor.answer (Response.fail id reason), s)) :
    Judged strtod text s (process machines globalHandler strtod rp sessionId text length s).2 := by
  rw [Response.fail_eq] at hProcess
  rw [process, hProcess]
  exact .harmless h rfl fun _ => rfl

theorem fatal_iff {text : Bytes} {members : List (Bytes × JsonValue)}
    (hParse : parse strtod text = .ok (.object members)) : Fatal strtod text ↔ Ends members := by
  constructor
  · rintro ⟨members', hParse', hEnds⟩
    cases hParse.symm.trans hParse'
    exact hEnds
  · exact fun hEnds => ⟨members, hParse, hEnds⟩

theorem fatal_of_take (strtod : Bytes → Option Json.Double) {memory text : Bytes}
    (h : memory.take (text.length + 1) = text ++ [0]) :
    Fatal strtod memory ↔ Fatal strtod text := by
  unfold Fatal
  rw [parse_of_take strtod h]

/-- Of the requests of `Request::simple`, the diff ends the server and no other. -/
theorem fatal_simple_iff {id : Int32} {command : CString} {text : Bytes}
    (h : Request.simple id command = some text) :
    Fatal strtod text ↔ command = literal "diff_processes" := by
  rw [Request.simple_eq] at h
  cases h
  refine (fatal_iff (parse_render strtod (.object (simpleMembers id command)))).trans ?_
  have hId : UnorderedMap.find (Value.liftMembers (simpleMembers id command) : List
      (Bytes × JsonValue)) Request.Id.idstr.bytes = some (.integer (.ofInt32 id)) := rfl
  have hCommand : UnorderedMap.find (Value.liftMembers (simpleMembers id command) : List
      (Bytes × JsonValue)) Request.Command.idstr.bytes = some (.string command.bytes) := rfl
  have hInt : (getAs .int (.integer (.ofInt32 id) : JsonValue)).isSome = true := by
    rw [getAs_eq_some_iff.mpr (⟨rfl, rfl⟩ : (Any.int id).type = .int ∧ Represents (.int id) _),
      Option.isSome_some]
  rw [Ends, hId, hCommand]
  simp [hInt, CString.bytes_inj, IsScalar]

/-- A request with an id and a command. -/
theorem judged_asked (hStarted : RequestProcessor.After construction rp)
    {entries : Nat → List Entry} (hMounted : ∀ call, (machines call).kernel.Mounted (entries call))
    {text : Bytes} {members : List (Bytes × PropertyBag)} {id : Int32} {key : Bytes}
    (hAsks : RequestProcessor.Asks knownRegistry strtod text [] members id key)
    (hFatal : Fatal strtod text ↔ key = (literal "diff_processes").bytes) {sessionId : UInt32}
    (length : Nat) {s : Daemon}
    (hSession : (UnorderedMap.find s.manager.sessions sessionId).isSome = true) :
    Judged strtod text s (process machines globalHandler strtod rp sessionId text length s).2 := by
  have hNames : (literal "stop").bytes ≠ (literal "diff_processes").bytes ∧
      (literal "version").bytes ≠ (literal "diff_processes").bytes ∧
      (literal "list_processes").bytes ≠ (literal "diff_processes").bytes := by decide
  by_cases hStop : key = (literal "stop").bytes
  · subst hStop
    obtain ⟨reply, s', hProcess, -, hLeaves⟩ := @process_global α machines globalHandler strtod rp
      hStarted text members id (literal "stop") hAsks [] sessionId length s (.inl ⟨rfl, rfl⟩)
    rw [hProcess]
    exact .harmless (fun h => hNames.1 (hFatal.mp h)) hLeaves.failed hLeaves.sessions
  by_cases hVersion : key = (literal "version").bytes
  · subst hVersion
    obtain ⟨reply, s', hProcess, -, hLeaves⟩ := @process_global α machines globalHandler strtod rp
      hStarted text members id (literal "version") hAsks _ sessionId length s (.inr ⟨rfl, rfl⟩)
    rw [hProcess]
    exact .harmless (fun h => hNames.2.1 (hFatal.mp h)) hLeaves.failed hLeaves.sessions
  by_cases hList : key = (literal "list_processes").bytes
  · subst hList
    obtain ⟨reply, s', hProcess, -, hLeaves⟩ := @process_list α machines globalHandler strtod rp
      hStarted text members id hAsks sessionId length s _ (hMounted s.calls) hSession
    rw [hProcess]
    exact .harmless (fun h => hNames.2.2 (hFatal.mp h)) hLeaves.failed hLeaves.sessions
  by_cases hDiff : key = (literal "diff_processes").bytes
  · subst hDiff
    obtain ⟨hFailed, hSame⟩ := @process_diff α machines globalHandler strtod rp hStarted text
      members id hAsks sessionId length s
    exact .fatal (hFatal.mpr rfl) hFailed hSame
  · -- nobody is registered for any other command
    have hHandlers : rp.equalRange key = [] := by
      obtain ⟨hStopBytes, hVersionBytes, hListBytes, hDiffBytes⟩ := literal_bytes
      rw [hStopBytes] at hStop
      rw [hVersionBytes] at hVersion
      rw [hListBytes] at hList
      rw [hDiffBytes] at hDiff
      rw [equalRange_eq hStarted, handlersOf, if_neg (not_or.mpr ⟨hStop, hVersion⟩),
        if_neg (not_or.mpr ⟨hList, hDiff⟩)]
    have hAnswers : RequestProcessor.answers (handlers machines globalHandler) sessionId
        (.ofMemory key) id (.table [] members) (rp.equalRange key) (.table [] []) s =
          some ([], .table [] [], s) := by
      rw [hHandlers]
      rfl
    refine .refused (fun h => hDiff (hFatal.mp h)) id (literal "Unsupported request") ?_
    rw [RequestProcessor.process_of_answers hAsks length hAnswers]
    rfl

/-- A JSON object. -/
theorem judged_object (hStarted : RequestProcessor.After construction rp)
    {entries : Nat → List Entry} (hMounted : ∀ call, (machines call).kernel.Mounted (entries call))
    {text : Bytes} {members : List (Bytes × JsonValue)}
    (hParse : parse strtod text = .ok (.object members)) {sessionId : UInt32} (length : Nat)
    {s : Daemon} (hSession : (UnorderedMap.find s.manager.sessions sessionId).isSome = true) :
    Judged strtod text s (process machines globalHandler strtod rp sessionId text length s).2 := by
  have hFatal := fatal_iff hParse
  have hId : knownRegistry.Registered Request.Id := registered_of_mem (by simp [knownProps])
  have hCommand : knownRegistry.Registered Request.Command :=
    registered_of_mem (by simp [knownProps])
  obtain ⟨messages, -, hAll⟩ := propertyBagFromJson_told knownRegistry hParse
  have hDecode : propertyBagFromJson knownRegistry RequestProcessor.JsonErrorHandler strtod text
      [] = (.ok (.table [] (keptMembers knownRegistry members [])), messages) := hAll []
  have hTable : rp.process knownRegistry strtod (handlers machines globalHandler) sessionId text
      length s = rp.processTable knownRegistry (handlers machines globalHandler) sessionId []
        (keptMembers knownRegistry members []) s := by
    rw [RequestProcessor.process, hDecode]
  by_cases hContainer : ∃ v, UnorderedMap.find members Request.Id.idstr.bytes = some v ∧
      ¬ IsScalar v
  · obtain ⟨v, hFind, hNot⟩ := hContainer
    rw [process, hTable, RequestProcessor.processTable,
      RequestProcessor.requestIdOf_container hFind hNot]
    exact .fatal (hFatal.mpr (.inl ⟨v, hFind, hNot⟩)) rfl fun _ => rfl
  by_cases hInt : ∀ v, UnorderedMap.find members Request.Id.idstr.bytes = some v →
      (getAs .int v).isSome = true
  · obtain ⟨id, hIdOf⟩ := RequestProcessor.requestIdOf_int hId hInt
    have hEnds : Fatal strtod text ↔ UnorderedMap.find members Request.Command.idstr.bytes =
        some (.string (literal "diff_processes").bytes) := by
      rw [hFatal, Ends, or_iff_right hContainer, and_iff_right hInt]
    have hCommandOf := RequestProcessor.commandOf_kept hCommand members id
    have hRefused {id' : Int32} {reason : CString} (hNot : ¬ Fatal strtod text)
        (hError : RequestProcessor.commandOf (keptMembers knownRegistry members []) id =
          .error (RequestProcessor.answer (Response.fail id' reason))) :
        Judged strtod text s
          (process machines globalHandler strtod rp sessionId text length s).2 := by
      refine .refused hNot id' reason ?_
      rw [hTable, RequestProcessor.processTable, hIdOf]
      dsimp only
      rw [hError]
    cases hFind : UnorderedMap.find members Request.Command.idstr.bytes with
    | none =>
        rw [hFind] at hEnds hCommandOf
        exact hRefused (by rw [hEnds]; exact fun h => by cases h) hCommandOf
    | some v =>
        rw [hFind] at hEnds hCommandOf
        cases v with
        | string key =>
            refine judged_asked hStarted hMounted ⟨congrArg Prod.fst hDecode, hIdOf, hCommandOf⟩ ?_
              length hSession
            rw [hEnds, Option.some.injEq, Value.string.injEq]
        | _ => exact hRefused (by rw [hEnds]; exact fun h => by cases h) hCommandOf
  · -- an id of another type throws in the `any_cast`
    obtain ⟨v, hV⟩ := not_forall.mp hInt
    obtain ⟨hFind, hNone⟩ := Classical.not_imp.mp hV
    have hScalar : IsScalar v := by
      by_contra hNot
      exact hContainer ⟨v, hFind, hNot⟩
    refine .refused (fun h => ?_) 0 (.ofMemory badAnyCast) ?_
    · exact (hFatal.mp h).elim hContainer fun h => hInt h.1
    · rw [hTable, RequestProcessor.processTable, RequestProcessor.requestIdOf_mistyped hId hFind
        hScalar (by simpa using hNone)]
      rfl

/-- A request, whatever it is, ends the server if it is fatal, and otherwise is answered. -/
theorem judged (hStarted : RequestProcessor.After construction rp)
    {entries : Nat → List Entry} (hMounted : ∀ call, (machines call).kernel.Mounted (entries call))
    (text : Bytes) {sessionId : UInt32} (length : Nat) {s : Daemon}
    (hSession : (UnorderedMap.find s.manager.sessions sessionId).isSome = true) :
    Judged strtod text s (process machines globalHandler strtod rp sessionId text length s).2 := by
  have hNot (h : ∀ members, parse strtod text ≠ .ok (.object members)) : ¬ Fatal strtod text := by
    rintro ⟨members, hParse, -⟩
    exact h members hParse
  cases hParse : parse strtod text with
  | error e =>
      refine .refused (hNot (by rw [hParse]; exact fun _ h => by cases h)) 0 (.ofMemory (ascii
        "Failed to parse JSON: [" ++ e.1.text ++ ascii "] at " ++ decimal e.2)) ?_
      rw [RequestProcessor.process, propertyBagFromJson, hParse]
      rfl
  | ok doc =>
      obtain ⟨messages, -, hAll⟩ := propertyBagFromJson_told knownRegistry hParse
      have hDecode : propertyBagFromJson knownRegistry RequestProcessor.JsonErrorHandler strtod text
          [] = (.ok (keptOf knownRegistry (literal "") doc), messages) := hAll []
      cases doc with
      | object members => exact judged_object hStarted hMounted hParse length hSession
      | _ =>
          refine .refused (hNot (by rw [hParse]; exact fun _ h => by cases h)) 0
            (literal "Not a JSON object") ?_
          rw [RequestProcessor.process, hDecode]
          rfl

end Daemon

end Kexplorer.Server

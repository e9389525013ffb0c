import Kexplorer.Process.ListProcesses
import Kexplorer.Props.Castable
import Kexplorer.Util.Built

/-!
# What a client gets to see of the processes

Two statements about the responses of `listProcesses`, as they come out of the
encoder in whatever order the tables are visited.

* `diff_never_reported`: the response of a diff does not get through the encoder,
  because the list of deleted processes has the name of the other list.
* `list_quiet_iff`: the response of a list is decoded without a report only if
  it says nothing of a process but its pid and an error, because one property
  that goes with every valid process is not registered.
-/

namespace Kexplorer.Process

open Kexplorer.Json Kexplorer.Lib Kexplorer.Props Kexplorer.Util

/-! ## The response of a diff -/

/-- The text is an object whose keys occur once, with a table for every process, which has its
pid, and the deleted pids in their order. -/
def Reports (strtod : Bytes → Option Double) (session : Session) (text : Bytes) : Prop :=
  ∃ members processes, parse strtod text = .ok (.object members) ∧
    (members.map Prod.fst).Nodup ∧
    UnorderedMap.find members ProcessProps.ProcessList.idstr.bytes = some (.array processes) ∧
    List.Forall₂
      (fun (m : Int32 × ProcessInfo) v => ∃ fields, v = .object fields ∧
        UnorderedMap.find fields ProcessProps.Pid.idstr.bytes = some (.integer (.ofInt32 m.1)))
      session.processes processes ∧
    UnorderedMap.find members ProcessProps.DeletedProcessList.idstr.bytes =
      some (.array (session.removedPids.map fun pid => .integer (.ofInt32 pid)))

variable {reg : Registry}

/-- A table with a member under another name than its own is not written. -/
theorem membersWritten_of_misnamed {members : List (Bytes × PropertyBag)} {m : Bytes × PropertyBag}
    (hMem : m ∈ members) (hEmpty : m.2.isEmpty = false) (hName : m.1 ≠ m.2.name) :
    membersWritten reg members = none := by
  induction members with
  | nil => cases hMem
  | cons m' members ih =>
      rw [membersWritten]
      rcases List.mem_cons.mp hMem with rfl | hMem
      · rw [hEmpty, if_neg Bool.false_ne_true, if_neg hName]
        rfl
      · rw [ih hMem]
        simp

/-- In whatever order, a response that has a member under another name than its own is not
encoded. -/
theorem not_encoded_of_misnamed {members : List (Bytes × PropertyBag)} {m : Bytes × PropertyBag}
    {bag : PropertyBag} (hMem : m ∈ members) (hEmpty : m.2.isEmpty = false)
    (hName : m.1 ≠ m.2.name) (hOrder : Reordered (.table [] members) bag) (text : Bytes) :
    propertyBagToJson reg bag ≠ .ok text := by
  cases hOrder with
  | @table _ _ ys zs hMembers hPerm =>
      have hFlip : List.Forall₂ (fun y x => AtKey Reordered x y) ys members := hMembers.flip
      obtain ⟨y, hy, hAt⟩ := exists_of_forall₂ hFlip hMem
      have hBag := hAt.snd
      have hNone : membersWritten reg zs = none :=
        membersWritten_of_misnamed (hPerm.mem_iff.mp hy) (hBag.isEmpty_eq ▸ hEmpty)
          (by rwa [← hAt.fst_eq, ← hBag.name_eq])
      intro hText
      rw [← toOption_eq_some_iff, propertyBagToJson_table, hNone] at hText
      cases hText

/-- No diff is reported, whatever the session. -/
theorem diff_never_reported (reg : Registry) (strtod : Bytes → Option Double) (session : Session)
    (id : Int32) :
    ∃ response, respond false session id (.table [] []) = some response ∧
      ∀ response₁, Reordered response response₁ →
        ¬ ∃ text, propertyBagToJson reg response₁ = .ok text ∧ Reports strtod session text := by
  refine ⟨_, respond_eq false session id, fun response₁ hOrder => ?_⟩
  rintro ⟨text, hText, -⟩
  have hMem : (ProcessProps.DeletedProcessList.idstr.bytes,
      PropertyBag.array ProcessProps.ProcessList.idstr.bytes (session.removedPids.map deletedItem)) ∈
        responseMembers false session id :=
    List.mem_cons_of_mem _ List.mem_cons_self
  refine not_encoded_of_misnamed hMem rfl ?_ hOrder text hText
  have hNames := responseNames_nodup
  simp only [List.map_cons, List.nodup_cons, List.mem_cons, not_or] at hNames
  exact Ne.symm hNames.1.1

/-- The session of a first diff that finds one process. -/
def oneProcess : Session where
  sessionId := 1
  timestamp := 1
  processes :=
    [(7, { readProcess (.of [7]) 7 1 with newcomer := true })]

/-- On the first diff of a session the encoder's assertion fails. -/
theorem diff_asserts :
    readProcesses false (.of [7]) (.inOrder _) (.new 1) = some oneProcess ∧
      (respond false oneProcess 1 (.table [] [])).map (propertyBagToJson knownRegistry) =
        some (.error .assertion) := by
  constructor
  · unfold readProcesses
    simp only [Iterator.begin, detectDeleted_eq]
    rfl
  · decide +kernel

/-! ## The response of a list -/

/-- The scalar of a field is written under the type of its value, whether the property is
registered or not. -/
theorem isWritten_field {info : PropertyInfo} {val : Any}
    (hKnown : info ∈ knownProps ∨ knownRegistry.lookupId info.id = none)
    (hType : val.type = info.type) (hWritten : val.type.isWritten = true) :
    IsWritten knownRegistry { id := info.id, value := some val } := by
  refine isWritten_of_declared hWritten fun other hOther => ?_
  rcases hKnown with hKnown | hNone
  · rw [(registered_of_mem hKnown).1, Option.some.injEq] at hOther
    rw [← hOther, hType]
  · rw [hNone] at hOther
    cases hOther

/-- The value of a field of the right type is read back if and only if the property is
registered. -/
theorem fits_field {info : PropertyInfo} {val : Any} (hType : val.type = info.type)
    (hWritten : val.type.isWritten = true) :
    (info ∈ knownProps →
        (fits knownRegistry).scalar info.idstr.bytes { id := info.id, value := some val }) ∧
      (knownRegistry.lookupName info.idstr = none →
        ¬ (fits knownRegistry).scalar info.idstr.bytes { id := info.id, value := some val }) := by
  have hBag : bagOf knownRegistry (.ofMemory info.idstr.bytes) val.toJson.lift =
      ((knownRegistry.lookupName info.idstr).bind fun info' =>
        (getAs info'.type val.toJson.lift).map fun value =>
          { id := info'.id, value := some value, info := some info' }).map
            (PropertyBag.property info.idstr.bytes) := by
    rw [bagOf_toJson, CString.ofMemory_bytes]
    rfl
  constructor
  · intro hKnown
    show (bagOf knownRegistry (.ofMemory info.idstr.bytes) val.toJson.lift).isSome = true
    rw [hBag, declares_known hKnown, Option.bind_some, ← hType, getAs_toJson hWritten]
    rfl
  · intro hNone
    show ¬ (bagOf knownRegistry (.ofMemory info.idstr.bytes) val.toJson.lift).isSome = true
    rw [hBag, hNone]
    exact Bool.false_ne_true

/-- All properties of a process have a name and are registered, but for two. -/
theorem fieldProps_spec : ∀ info ∈ fieldProps, info.idstr.bytes ≠ [] ∧
    (info ∈ knownProps ∨ info = ProcessProps.Newcomer ∨ info = ProcessProps.Ruid) := by
  refine fun info hInfo => ⟨fieldProps_names.2 info hInfo, ?_⟩
  revert info
  simp [fieldProps, knownProps, ProcessProps.all]

/-- Every field has a value of its own type. -/
theorem candidates_type (process : ProcessInfo) :
    ∀ c ∈ process.candidates, c.2.2.type = c.2.1.type ∧ c.2.2.type.isWritten = true := by
  unfold ProcessInfo.candidates
  simp only [List.forall_mem_cons]
  exact ⟨⟨rfl, rfl⟩, ⟨rfl, rfl⟩, ⟨rfl, rfl⟩, ⟨rfl, rfl⟩, ⟨rfl, rfl⟩, ⟨rfl, rfl⟩, ⟨rfl, rfl⟩,
    ⟨rfl, rfl⟩, ⟨rfl, rfl⟩, ⟨rfl, rfl⟩, ⟨rfl, rfl⟩, ⟨rfl, rfl⟩,
    List.forall_mem_nil _⟩

/-- What is known of a field of a process. -/
theorem fields_spec {process : ProcessInfo} {info : PropertyInfo} {val : Any}
    (h : (info, val) ∈ process.fields) :
    val.type = info.type ∧ val.type.isWritten = true ∧ info.idstr.bytes ≠ [] ∧
      (info ∈ knownProps ∨ info = ProcessProps.Newcomer ∨ info = ProcessProps.Ruid) := by
  obtain ⟨c, hc, hEq⟩ := List.mem_map.mp h
  have hCandidate := List.mem_of_mem_filter hc
  obtain ⟨hType, hWritten⟩ := candidates_type process c hCandidate
  have hProp : c.2.1 ∈ fieldProps := map_candidates process ▸ List.mem_map_of_mem hCandidate
  obtain ⟨hName, hKnown⟩ := fieldProps_spec _ hProp
  rw [hEq] at hType hWritten hName hKnown
  exact ⟨hType, hWritten, hName, hKnown⟩

/-- All properties of a process are registered if and only if it is invalid and no newcomer. -/
theorem fields_known_iff (process : ProcessInfo) :
    (∀ field ∈ process.fields, field.1 ∈ knownProps) ↔
      process.stat.valid = false ∧ process.newcomer = false := by
  have hRuid : ProcessProps.Ruid ∉ knownProps := fun h =>
    absurd (declares_known h) (by rw [ruid_unknown.1]; exact nofun)
  have hNewcomer : ProcessProps.Newcomer ∉ knownProps := fun h =>
    absurd (declares_known h) (by rw [newcomer_unknown.1]; exact nofun)
  have hPid : ProcessProps.Pid ∈ knownProps := by simp [knownProps, ProcessProps.all]
  have hError : ProcessProps.Error ∈ knownProps := by simp [knownProps, ProcessProps.all]
  unfold ProcessInfo.fields ProcessInfo.candidates
  cases process.stat.valid <;> cases process.newcomer <;> simp [hRuid, hNewcomer, hPid, hError]

/-- A field is read back if and only if its property is registered. -/
theorem fits_field_iff {process : ProcessInfo} {field : PropertyInfo × Any}
    (h : field ∈ process.fields) :
    (fits knownRegistry).scalar field.1.idstr.bytes { id := field.1.id, value := some field.2 } ↔
      field.1 ∈ knownProps := by
  obtain ⟨hType, hWritten, -, hKnown⟩ := fields_spec h
  obtain ⟨hFits, hNot⟩ := fits_field hType hWritten
  refine ⟨fun hScalar => ?_, hFits⟩
  rcases hKnown with hKnown | hEq | hEq
  · exact hKnown
  · exact absurd hScalar (hNot (by rw [hEq]; exact newcomer_unknown.1))
  · exact absurd hScalar (hNot (by rw [hEq]; exact ruid_unknown.1))

/-- The table of a process is written. -/
theorem writable_processItem (m : Int32 × ProcessInfo) :
    (writable knownRegistry).Holds (processItem m) := by
  refine ⟨fields_nodup m.2, Shape.members_iff.mpr fun member hMember => ?_⟩
  obtain ⟨⟨info, val⟩, hField, rfl⟩ := List.mem_map.mp hMember
  obtain ⟨hType, hWritten, hName, hKnown⟩ := fields_spec hField
  refine ⟨⟨rfl, hName⟩, isWritten_field ?_ hType hWritten⟩
  rcases hKnown with hKnown | rfl | rfl
  · exact .inl hKnown
  · exact .inr newcomer_unknown.2
  · exact .inr ruid_unknown.2

/-- The table of a process is read back if and only if its properties are registered. -/
theorem fits_processItem_iff (m : Int32 × ProcessInfo) :
    (fits knownRegistry).Holds (processItem m) ↔
      m.2.stat.valid = false ∧ m.2.newcomer = false := by
  rw [← fields_known_iff, processItem, Shape.Holds, Shape.members_iff]
  refine (and_iff_right (fields_nodup m.2)).trans ?_
  rw [List.forall_mem_map]
  refine forall_congr' fun field => forall_congr' fun hField => ?_
  exact (and_iff_right rfl).trans (fits_field_iff hField)

/-- The two scalars at the end of a response. -/
theorem responseScalar_spec (id : Int32) : ∀ field ∈
    [(Request.Id, Any.int id), (Response.Status, Any.string Response.Success.bytes)],
    field.1 ∈ knownProps ∧ field.2.type = field.1.type ∧ field.2.type.isWritten = true ∧
      field.1.idstr.bytes ≠ [] := by
  have hNames : Request.Id.idstr.bytes ≠ [] ∧ Response.Status.idstr.bytes ≠ [] := by decide
  simp only [List.forall_mem_cons]
  exact ⟨⟨by simp [knownProps], rfl, rfl, hNames.1⟩, ⟨by simp [knownProps], rfl, rfl, hNames.2⟩,
    List.forall_mem_nil _⟩

theorem nodup_list (session : Session) (id : Int32) :
    ((responseMembers true session id).map Prod.fst).Nodup :=
  responseNames_nodup.sublist (keys_responseMembers true session id)

/-- The members of the response of a list: the processes and two scalars. -/
theorem forall_listMembers {p : Bytes × PropertyBag → Prop} (session : Session) (id : Int32) :
    (∀ m ∈ responseMembers true session id, p m) ↔
      p (ProcessProps.ProcessList.idstr.bytes,
          .array ProcessProps.ProcessList.idstr.bytes (session.processes.map processItem)) ∧
        ∀ field ∈ [(Request.Id, Any.int id), (Response.Status, .string Response.Success.bytes)],
          p (scalar field) := by
  simp [responseMembers]

theorem writable_list (session : Session) (id : Int32) :
    (writable knownRegistry).Holds (.table [] (responseMembers true session id)) := by
  have hList : ProcessProps.ProcessList.idstr.bytes ≠ [] := by decide
  refine ⟨nodup_list session id, Shape.members_iff.mpr ?_⟩
  rw [forall_listMembers]
  refine ⟨⟨⟨rfl, hList⟩, trivial, Shape.items_iff.mpr ?_⟩, fun field hField => ?_⟩
  · rw [List.forall_mem_map]
    exact fun m _ => ⟨rfl, writable_processItem m⟩
  · obtain ⟨hKnown, hType, hWritten, hName⟩ := responseScalar_spec id field hField
    exact ⟨⟨rfl, hName⟩, isWritten_field (.inl hKnown) hType hWritten⟩

theorem fits_list_iff (session : Session) (id : Int32) :
    (fits knownRegistry).Holds (.table [] (responseMembers true session id)) ↔
      ∀ m ∈ session.processes, m.2.stat.valid = false ∧ m.2.newcomer = false := by
  have hList : ProcessProps.ProcessList ∈ knownProps := by simp [knownProps, ProcessProps.all]
  rw [Shape.Holds, Shape.members_iff, forall_listMembers]
  simp only [Shape.Holds, Shape.items_iff, List.forall_mem_map]
  constructor
  · rintro ⟨-, ⟨⟨-, -, hItems⟩, -⟩⟩ m hm
    exact (fits_processItem_iff m).mp (hItems m hm).2
  · intro hAll
    refine ⟨nodup_list session id,
      ⟨rfl, ⟨_, declares_of_registered (registered_of_mem hList), rfl⟩, fun m hm => ⟨rfl, ?_⟩⟩,
      fun field hField => ?_⟩
    · exact (fits_processItem_iff m).mpr (hAll m hm)
    · obtain ⟨hKnown, hType, hWritten, -⟩ := responseScalar_spec id field hField
      exact ⟨rfl, (fits_field hType hWritten).1 hKnown⟩

/-- A writable table in any order is encoded, and decoded without a report if and only if all
its parts fit. -/
theorem quiet_iff_fits {members : List (Bytes × PropertyBag)} {bag : PropertyBag}
    (hWritable : (writable reg).Holds (.table [] members))
    (hOrder : Reordered (.table [] members) bag) :
    ∃ json, propertyBagToJson reg bag = .ok json ∧
      ∀ eh strtod past, (propertyBagFromJson reg eh strtod json past).2 = [] ↔
        (fits reg).Holds (.table [] members) := by
  have hWritable' := (hOrder.holds_iff (writable reg).ignores_eq).mp hWritable
  have hFits := hOrder.holds_iff (fits reg).ignores_eq
  cases hOrder with
  | @table _ _ ys zs _ _ =>
      refine ⟨_, propertyBagToJson_of_writable hWritable', fun eh strtod past => ?_⟩
      rw [propertyBagFromJson_quiet_iff (parse_render strtod _), hFits, fits_iff hWritable']
      rfl

/-- The response of a list is encoded, and decoded without a report if and only if every process
is invalid and no newcomer. -/
theorem list_quiet_iff (session : Session) (id : Int32) :
    ∃ response, respond true session id (.table [] []) = some response ∧
      ∀ response₁, Reordered response response₁ →
        ∃ json, propertyBagToJson knownRegistry response₁ = .ok json ∧
          ∀ eh strtod past, (propertyBagFromJson knownRegistry eh strtod json past).2 = [] ↔
            ∀ m ∈ session.processes, m.2.stat.valid = false ∧ m.2.newcomer = false := by
  refine ⟨_, respond_eq true session id, fun response₁ hOrder => ?_⟩
  obtain ⟨json, hJson, hQuiet⟩ := quiet_iff_fits (writable_list session id) hOrder
  refine ⟨json, hJson, fun eh strtod past => ?_⟩
  rw [hQuiet, fits_list_iff]

/-- The first list of a session that finds one process is decoded with a report. -/
theorem list_reported :
    ∃ session response json,
      readProcesses true (.of [7]) (.inOrder _) (.new 1) = some session ∧
        respond true session 1 (.table [] []) = some response ∧
        propertyBagToJson knownRegistry response = .ok json ∧
        (propertyBagFromJson knownRegistry ⟨fun _ _ => .Continue⟩ (fun _ => none) json []).2 ≠ [] := by
  let session : Session := { oneProcess with processes := [(7, readProcess (.of [7]) 7 1)] }
  obtain ⟨json, hJson, hQuiet⟩ :=
    quiet_iff_fits (writable_list session 1) (.refl (fun _ => rfl) _)
  refine ⟨session, _, json, rfl, respond_eq true session 1, hJson, ?_⟩
  rw [ne_eq, hQuiet, fits_list_iff]
  exact fun h => absurd (h _ List.mem_cons_self).1 (by decide)

/-! ## How a diff fails -/

/-- Every scalar in the response of a diff has a value of its type. -/
theorem castable_diff (session : Session) (id : Int32) :
    (castable knownRegistry).Holds (.table [] (responseMembers false session id)) := by
  have hDeleted (pid : Int32) :
      IsWritten knownRegistry { id := ProcessProps.DeletedProcess.id, value := some (.int pid) } :=
    @isWritten_field ProcessProps.DeletedProcess (.int pid)
      (.inl (by simp [knownProps, ProcessProps.all])) rfl rfl
  refine ⟨responseNames_nodup.sublist (keys_responseMembers false session id),
    Shape.members_iff.mpr ?_⟩
  simp only [responseMembers, Bool.false_eq_true, if_false, List.cons_append, List.nil_append,
    List.forall_mem_cons]
  refine ⟨⟨trivial, trivial, Shape.items_iff.mpr ?_⟩, ⟨trivial, trivial, Shape.items_iff.mpr ?_⟩,
    ⟨trivial, ?_⟩, ⟨trivial, ?_⟩, List.forall_mem_nil _⟩
  · rw [List.forall_mem_map]
    exact fun m _ => ⟨rfl, (writable_processItem m).mono (writable_implies_castable _)⟩
  · rw [List.forall_mem_map]
    exact fun pid _ => ⟨rfl, hDeleted pid⟩
  · obtain ⟨hKnown, hType, hWritten, -⟩ := responseScalar_spec id _ List.mem_cons_self
    exact isWritten_field (.inl hKnown) hType hWritten
  · obtain ⟨hKnown, hType, hWritten, -⟩ :=
      responseScalar_spec id _ (List.mem_cons_of_mem _ List.mem_cons_self)
    exact isWritten_field (.inl hKnown) hType hWritten

/-- In whatever order its tables are visited, the response of a diff fails an assertion of the
encoder, and never throws. -/
theorem diff_asserts_always (session : Session) (id : Int32) {visited : PropertyBag}
    (hOrder : Reordered (.table [] (responseMembers false session id)) visited) :
    propertyBagToJson knownRegistry visited = .error .assertion := by
  refine (propertyBagToJson_throwsNothing ?_).eq_assertion fun text => ?_
  · exact (hOrder.holds_iff (castable knownRegistry).ignores_eq).mp (castable_diff session id)
  · -- the second array has the name of the first
    have hMem : (ProcessProps.DeletedProcessList.idstr.bytes,
        PropertyBag.array ProcessProps.ProcessList.idstr.bytes
          (session.removedPids.map deletedItem)) ∈ responseMembers false session id :=
      List.mem_cons_of_mem _ List.mem_cons_self
    have hNames := responseNames_nodup
    simp only [List.map_cons, List.nodup_cons, List.mem_cons, not_or] at hNames
    exact not_encoded_of_misnamed hMem rfl (Ne.symm hNames.1.1) hOrder text

end Kexplorer.Process

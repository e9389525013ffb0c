import Kexplorer.Process.ProcessProps
import Kexplorer.Process.Snapshot
import Kexplorer.Props.Codec
import Mathlib.Data.List.Nodup

/-!
# The responses about processes

`ProcessInfo::serialize` builds the table of a process and
`ProcessManager::listProcesses` the response of both commands.
-/

namespace Kexplorer.Process

open Kexplorer.Json Kexplorer.Props Kexplorer.Util

/-- An `addToTable` under a condition. -/
def addToTableIf (condition : Bool) (info : PropertyInfo) (val : Any) (table : PropertyBag) :
    Option PropertyBag :=
  if condition then addToTable info val table else some table

/-- `ProcessInfo::serialize`; `none` is a failed assertion. -/
def ProcessInfo.serialize (process : ProcessInfo) : Option PropertyBag := do
  let table := PropertyBag.table [] []
  let table ← addToTable ProcessProps.Pid (.int process.stat.pid) table
  let table ← addToTableIf process.newcomer ProcessProps.Newcomer (.bool true) table
  if !process.stat.valid then
    addToTable ProcessProps.Error (.string process.stat.error) table
  else do
    let table ← addToTable ProcessProps.PPid (.int process.stat.ppid) table
    let table ← addToTable ProcessProps.PGrp (.int process.stat.pgrp) table
    let table ← addToTable ProcessProps.Tpgid (.int process.stat.tpgid) table
    let table ← addToTable ProcessProps.Session (.int process.stat.session) table
    let table ← addToTable ProcessProps.Comm (.string process.comm) table
    let table ← addToTable ProcessProps.Ruid (.int process.stat.ruid.toInt32) table
    let table ← addToTableIf (process.comm ≠ []) ProcessProps.StatComm (.string process.comm) table
    let table ← addToTableIf (process.exe ≠ []) ProcessProps.Exe (.string process.exe) table
    addToTableIf (process.cmdLine ≠ []) ProcessProps.CmdLine (.string process.cmdLine) table

/-- The part of `listProcesses` that lists existing and new processes. -/
def processArray (session : Session) : Option PropertyBag :=
  session.processes.foldlM
    (fun array process => do
      let jProcess ← process.2.serialize
      addBagToArray jProcess array)
    (.array ProcessProps.ProcessList.idstr.bytes [])

/-- The part that lists deleted processes; the array has the name of the other one. -/
def deletedArray (session : Session) : Option PropertyBag :=
  session.removedPids.foldlM
    (fun array pid => addToArray ProcessProps.DeletedProcess (.int pid) array)
    (.array ProcessProps.ProcessList.idstr.bytes [])

/-- What `listProcesses` does after `readProcesses`. -/
def respond (initial : Bool) (session : Session) (id : Int32) (response : PropertyBag) :
    Option PropertyBag := do
  let array ← processArray session
  let response ← addBagToTable ProcessProps.ProcessList array response
  let response ←
    if !initial then do
      let array ← deletedArray session
      addBagToTable ProcessProps.DeletedProcessList array response
    else some response
  let response ← addToTable Request.Id (.int id) response
  addToTable Response.Status (.string Response.Success.bytes) response

/-- `ProcessManager::listProcesses`: the session and the response afterwards, unless the call runs
into undefined behaviour. -/
def listProcesses (initial : Bool) (proc : ProcView) (layout : Layout (Int32 × ProcessInfo))
    (session : Session) (id : Int32) (response : PropertyBag) : Option (Session × PropertyBag) := do
  let session ← readProcesses initial proc layout session
  let response ← respond initial session id response
  return (session, response)

/-! ## What is built -/

/-- The member that `addToTable` adds for a value. -/
def scalar (field : PropertyInfo × Any) : Bytes × PropertyBag :=
  (field.1.idstr.bytes, .property field.1.idstr.bytes { id := field.1.id, value := some field.2 })

/-- The fields that a process can have, each with its condition. -/
def ProcessInfo.candidates (process : ProcessInfo) : List (Bool × PropertyInfo × Any) :=
  let valid := process.stat.valid
  [(true, ProcessProps.Pid, .int process.stat.pid),
    (process.newcomer, ProcessProps.Newcomer, .bool true),
    (!valid, ProcessProps.Error, .string process.stat.error),
    (valid, ProcessProps.PPid, .int process.stat.ppid),
    (valid, ProcessProps.PGrp, .int process.stat.pgrp),
    (valid, ProcessProps.Tpgid, .int process.stat.tpgid),
    (valid, ProcessProps.Session, .int process.stat.session),
    (valid, ProcessProps.Comm, .string process.comm),
    (valid, ProcessProps.Ruid, .int process.stat.ruid.toInt32),
    (valid && process.comm ≠ [], ProcessProps.StatComm, .string process.comm),
    (valid && process.exe ≠ [], ProcessProps.Exe, .string process.exe),
    (valid && process.cmdLine ≠ [], ProcessProps.CmdLine, .string process.cmdLine)]

/-- The fields that a process has. -/
def ProcessInfo.fields (process : ProcessInfo) : List (PropertyInfo × Any) :=
  (process.candidates.filter fun c => c.1).map Prod.snd

/-- Add a field under its condition. -/
def addField (table : PropertyBag) (c : Bool × PropertyInfo × Any) : Option PropertyBag :=
  addToTableIf c.1 c.2.1 c.2.2 table

theorem addToTableIf_true (info : PropertyInfo) (val : Any) (table : PropertyBag) :
    addToTableIf true info val table = addToTable info val table := rfl

theorem addToTableIf_false (info : PropertyInfo) (val : Any) (table : PropertyBag) :
    addToTableIf false info val table = some table := rfl

theorem serialize_eq_foldlM (process : ProcessInfo) :
    process.serialize = process.candidates.foldlM addField (.table [] []) := by
  unfold ProcessInfo.serialize ProcessInfo.candidates
  cases process.stat.valid <;>
    simp [addField, addToTableIf_true, addToTableIf_false]

/-- A field with a new name goes behind the ones before. -/
theorem addToTable_of_notMem {info : PropertyInfo} {val : Any} {name : Bytes}
    {members : List (Bytes × PropertyBag)} (h : info.idstr.bytes ∉ members.map Prod.fst) :
    addToTable info val (.table name members) = some (.table name (members ++ [scalar (info, val)])) := by
  rw [addToTable, UnorderedMap.insert, if_neg (by rwa [UnorderedMap.find_isSome])]
  rfl

theorem addBagToTable_of_notMem {info : PropertyInfo} {val : PropertyBag} {name : Bytes}
    {members : List (Bytes × PropertyBag)} (h : info.idstr.bytes ∉ members.map Prod.fst) :
    addBagToTable info val (.table name members) =
      some (.table name (members ++ [(info.idstr.bytes, val)])) := by
  rw [addBagToTable, UnorderedMap.insert, if_neg (by rwa [UnorderedMap.find_isSome])]

/-- Fields with distinct names are all there, in their order. -/
theorem foldlM_addField (candidates : List (Bool × PropertyInfo × Any)) :
    ∀ {name : Bytes} {members : List (Bytes × PropertyBag)},
      (members.map Prod.fst ++ candidates.map fun c => c.2.1.idstr.bytes).Nodup →
      candidates.foldlM addField (.table name members) =
        some (.table name (members ++
          ((candidates.filter fun c => c.1).map Prod.snd).map scalar)) := by
  induction candidates with
  | nil => simp
  | cons c candidates ih =>
      intro name members h
      obtain ⟨condition, info, val⟩ := c
      have hNew : info.idstr.bytes ∉ members.map Prod.fst := by
        intro hMem
        rw [List.map_cons, List.nodup_append] at h
        exact h.2.2 _ hMem _ List.mem_cons_self rfl
      rw [List.foldlM_cons, addField]
      cases condition with
      | true =>
          rw [addToTableIf_true, addToTable_of_notMem hNew, Option.bind_eq_bind, Option.bind_some,
            ih (by simpa [scalar] using h)]
          simp
      | false =>
          have hSub : (members.map Prod.fst ++ candidates.map fun c => c.2.1.idstr.bytes).Sublist
              (members.map Prod.fst ++ info.idstr.bytes :: candidates.map fun c => c.2.1.idstr.bytes) :=
            .append (.refl _) (List.sublist_cons_self _ _)
          rw [addToTableIf_false, Option.bind_eq_bind, Option.bind_some, ih (h.sublist hSub)]
          simp

/-- The properties of a process in the order in which they are added. -/
def fieldProps : List PropertyInfo :=
  [ProcessProps.Pid, ProcessProps.Newcomer, ProcessProps.Error, ProcessProps.PPid,
    ProcessProps.PGrp, ProcessProps.Tpgid, ProcessProps.Session, ProcessProps.Comm,
    ProcessProps.Ruid, ProcessProps.StatComm, ProcessProps.Exe, ProcessProps.CmdLine]

theorem map_candidates (process : ProcessInfo) :
    process.candidates.map (fun c => c.2.1) = fieldProps := rfl

theorem fieldProps_names : (fieldProps.map fun info => info.idstr.bytes).Nodup ∧
    ∀ info ∈ fieldProps, info.idstr.bytes ≠ [] := by
  decide +kernel

theorem candidates_nodup (process : ProcessInfo) :
    (process.candidates.map fun c => c.2.1.idstr.bytes).Nodup := by
  have hNames := fieldProps_names.1
  rwa [← map_candidates process, List.map_map] at hNames

/-- A process becomes an unnamed table of its fields. -/
theorem serialize_eq (process : ProcessInfo) :
    process.serialize = some (.table [] (process.fields.map scalar)) := by
  rw [serialize_eq_foldlM]
  exact foldlM_addField process.candidates (candidates_nodup process)

/-- The names in the table of a process are distinct. -/
theorem fields_nodup (process : ProcessInfo) :
    ((process.fields.map scalar).map Prod.fst).Nodup := by
  have hKeys : (process.fields.map scalar).map Prod.fst =
      (process.candidates.filter fun c => c.1).map fun c => c.2.1.idstr.bytes := by
    simp [ProcessInfo.fields, scalar]
  rw [hKeys]
  exact (candidates_nodup process).sublist (List.filter_sublist.map _)

/-- A field is found in the table exactly if its condition holds. -/
theorem find_fields {process : ProcessInfo} {c : Bool × PropertyInfo × Any}
    (h : c ∈ process.candidates) :
    UnorderedMap.find (process.fields.map scalar) c.2.1.idstr.bytes =
      if c.1 then some (scalar c.2).2 else none := by
  have hMem {c' : Bool × PropertyInfo × Any} :
      c'.2 ∈ process.fields ↔ ∃ c'' ∈ process.candidates, c''.1 = true ∧ c''.2 = c'.2 := by
    simp [ProcessInfo.fields, and_assoc]
  split
  · rename_i hHolds
    have hEntry : scalar c.2 ∈ process.fields.map scalar :=
      List.mem_map_of_mem (hMem.mpr ⟨c, h, hHolds, rfl⟩)
    exact (UnorderedMap.mem_iff_find (fields_nodup process)).mp hEntry
  · rename_i hNot
    rw [UnorderedMap.find_eq_none, List.mem_map]
    rintro ⟨m, hm, hName⟩
    obtain ⟨field, hField, rfl⟩ := List.mem_map.mp hm
    obtain ⟨c', hc', hHolds, rfl⟩ := (@hMem (c.1, field)).mp hField
    -- the names are distinct, so that it is the same candidate
    cases List.inj_on_of_nodup_map (candidates_nodup process) hc' h hName
    exact hNot hHolds

/-- The item that stands for a process. -/
def processItem (m : Int32 × ProcessInfo) : PropertyBag := .table [] (m.2.fields.map scalar)

/-- The item that stands for a deleted process. -/
def deletedItem (pid : Int32) : PropertyBag :=
  .property [] { id := ProcessProps.DeletedProcess.id, value := some (.int pid) }

/-- The array of the processes. -/
theorem processArray_eq (session : Session) :
    processArray session = some (.array ProcessProps.ProcessList.idstr.bytes
      (session.processes.map processItem)) := by
  have hLoop (processes : List (Int32 × ProcessInfo)) : ∀ (name : Bytes) (items : List PropertyBag),
      processes.foldlM (fun array (process : Int32 × ProcessInfo) => do
          let jProcess ← process.2.serialize
          addBagToArray jProcess array) (.array name items) =
        some (.array name (items ++ processes.map processItem)) := by
    induction processes with
    | nil => simp
    | cons m processes ih =>
        intro name items
        have hStep := ih name (items ++ [processItem m])
        rw [List.append_assoc, List.singleton_append] at hStep
        rw [List.foldlM_cons, serialize_eq, List.map_cons, ← hStep]
        rfl
  exact hLoop session.processes _ []

/-- The array of the deleted processes. -/
theorem deletedArray_eq (session : Session) :
    deletedArray session = some (.array ProcessProps.ProcessList.idstr.bytes
      (session.removedPids.map deletedItem)) := by
  have hLoop (pids : List Int32) : ∀ (name : Bytes) (items : List PropertyBag),
      pids.foldlM (fun array pid => addToArray ProcessProps.DeletedProcess (.int pid) array)
          (.array name items) =
        some (.array name (items ++ pids.map deletedItem)) := by
    induction pids with
    | nil => simp
    | cons pid pids ih =>
        intro name items
        have hStep := ih name (items ++ [deletedItem pid])
        rw [List.append_assoc, List.singleton_append] at hStep
        rw [List.foldlM_cons, List.map_cons, ← hStep]
        rfl
  exact hLoop session.removedPids _ []

/-- The members of a response. -/
def responseMembers (initial : Bool) (session : Session) (id : Int32) :
    List (Bytes × PropertyBag) :=
  [(ProcessProps.ProcessList.idstr.bytes,
      .array ProcessProps.ProcessList.idstr.bytes (session.processes.map processItem))] ++
    (if initial then []
      else [(ProcessProps.DeletedProcessList.idstr.bytes,
        .array ProcessProps.ProcessList.idstr.bytes (session.removedPids.map deletedItem))]) ++
    [scalar (Request.Id, .int id), scalar (Response.Status, .string Response.Success.bytes)]

theorem responseNames_nodup :
    ([ProcessProps.ProcessList, ProcessProps.DeletedProcessList, Request.Id,
      Response.Status].map fun info => info.idstr.bytes).Nodup := by
  decide +kernel

theorem keys_responseMembers (initial : Bool) (session : Session) (id : Int32) :
    ((responseMembers initial session id).map Prod.fst).Sublist
      ([ProcessProps.ProcessList, ProcessProps.DeletedProcessList, Request.Id,
        Response.Status].map fun info => info.idstr.bytes) := by
  cases initial with
  | true => exact .cons_cons _ (.cons _ (.refl _))
  | false => exact .refl _

/-- The response of either command. -/
theorem respond_eq (initial : Bool) (session : Session) (id : Int32) :
    respond initial session id (.table [] []) =
      some (.table [] (responseMembers initial session id)) := by
  have hNames := responseNames_nodup
  simp only [List.map_cons, List.map_nil, List.nodup_cons, List.mem_cons, List.not_mem_nil, or_false,
    not_or] at hNames
  obtain ⟨⟨hDeleted, hId, hStatus⟩, ⟨hId', hStatus'⟩, hStatus'', -⟩ := hNames
  unfold respond responseMembers
  rw [processArray_eq, deletedArray_eq]
  cases initial with
  | true =>
      simp only [Option.bind_eq_bind, Option.bind_some, Bool.not_true, Bool.false_eq_true, if_false,
        if_true]
      rw [addBagToTable_of_notMem (by simp), Option.bind_some,
        addToTable_of_notMem (by simp [Ne.symm hId]), Option.bind_some,
        addToTable_of_notMem (by simp [scalar, Ne.symm hStatus, Ne.symm hStatus''])]
      rfl
  | false =>
      simp only [Option.bind_eq_bind, Option.bind_some, Bool.not_false, if_true, Bool.false_eq_true,
        if_false]
      rw [addBagToTable_of_notMem (by simp), Option.bind_some,
        addBagToTable_of_notMem (by simp [Ne.symm hDeleted]), Option.bind_some,
        addToTable_of_notMem (by simp [Ne.symm hId, Ne.symm hId']), Option.bind_some,
        addToTable_of_notMem
          (by simp [scalar, Ne.symm hStatus, Ne.symm hStatus', Ne.symm hStatus''])]
      rfl

/-- A call goes through exactly if the processes are read. -/
theorem listProcesses_eq (initial : Bool) (proc : ProcView) (layout : Layout (Int32 × ProcessInfo))
    (session : Session) (id : Int32) :
    listProcesses initial proc layout session id (.table [] []) =
      (readProcesses initial proc layout session).map fun session' =>
        (session', .table [] (responseMembers initial session' id)) := by
  unfold listProcesses
  simp only [respond_eq]
  cases readProcesses initial proc layout session <;> rfl

end Kexplorer.Process

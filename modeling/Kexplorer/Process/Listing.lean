import Kexplorer.Process.ProcFiles
import Kexplorer.Process.Responses

/-!
# From `/proc` to the wire

What the text of a list says, in terms of what the kernel shows.  The directory of the
processes has an `Entry` for every pid: a process whose files are there, one that has
gone since the directory was read, or one whose record cannot be opened.

The entries of a hash table may come in any order, so a text is compared with the value
that is expected of it up to the order of members (`Renders`, `Reads`).
-/

namespace Kexplorer.Process

open Kexplorer.Json Kexplorer.Lib Kexplorer.Props Kexplorer.Util

/-! ## Texts up to the order of members -/

/-- The text is what the writer makes of the value, up to the order of members. -/
def Renders (text : Bytes) (expected : Value Empty) : Prop :=
  ∃ v, Rearranged expected v ∧ text = v.render

/-- The text is read as the value, up to the order of members. -/
def Reads (text : Bytes) (expected : Value Empty) : Prop :=
  ∃ v, Rearranged expected v ∧ ∀ strtod : Bytes → Option Double, parse strtod text = .ok v.lift

theorem Renders.reads {text : Bytes} {expected : Value Empty} (h : Renders text expected) :
    Reads text expected := by
  obtain ⟨v, hValue, rfl⟩ := h
  exact ⟨v, hValue, fun strtod => parse_render strtod v⟩

/-- The order in which a bag is visited is the order in its value. -/
theorem rearranged_valueOf {bag bag' : PropertyBag} (h : Reordered bag bag') :
    Rearranged (valueOf bag) (valueOf bag') := by
  induction bag using PropertyBag.induction generalizing bag' with
  | hEmpty =>
      cases h
      exact .refl _
  | hProperty name prop =>
      cases h with
      | property hProp => exact hProp ▸ .refl _
  | hArray name items ih =>
      cases h with
      | array hItems =>
          rw [valueOf, valueOf, itemValues_eq_map, itemValues_eq_map]
          exact .array (map_forall₂ hItems fun item hItem item' => ih item hItem)
  | hTable name members ih =>
      cases h with
      | table hMembers hPerm =>
          rw [valueOf, valueOf, memberValues_eq_map, memberValues_eq_map]
          refine .object (map_forall₂ hMembers fun m hm m' hAt => ?_) (hPerm.map _)
          obtain ⟨hAlike⟩ := hAt
          exact .mk (ih _ hm hAlike)

/-- A writable table in any order is encoded as its value. -/
theorem renders_of_writable {reg : Registry} {members : List (Bytes × PropertyBag)}
    (h : (writable reg).Holds (.table [] members)) {bag : PropertyBag}
    (hOrder : Reordered (.table [] members) bag) :
    ∃ text, propertyBagToJson reg bag = .ok text ∧ Renders text (valueOf (.table [] members)) := by
  have hBag := (hOrder.holds_iff (writable reg).ignores_eq).mp h
  have hValue := rearranged_valueOf hOrder
  cases hOrder with
  | table _ _ =>
      exact ⟨_, propertyBagToJson_of_writable hBag, _, hValue, rfl⟩

/-! ## The processes of a directory -/

/-- What the directory has for a pid. -/
inductive Entry
  | shown (task : Task)
  /-- The process has gone. -/
  | vanished (pid : Int32)
  /-- Its record may not be read. -/
  | closed (pid : Int32)

namespace Entry

def pid : Entry → Int32
  | .shown task => task.pid
  | .vanished pid => pid
  | .closed pid => pid

/-- A member with a name and a scalar. -/
def member (info : PropertyInfo) (v : Value Empty) : Bytes × Value Empty := (info.idstr.bytes, v)

/-- A member that is left out if it is empty. -/
def optional (info : PropertyInfo) (s : Bytes) : List (Bytes × Value Empty) :=
  if s = [] then [] else [member info (.string s)]

/-- What the client is told. -/
def value : Entry → Value Empty
  | .shown task =>
      .object ([member ProcessProps.Pid (.integer (.ofInt32 task.record.pid)),
          member ProcessProps.PPid (.integer (.ofInt32 task.record.ppid)),
          member ProcessProps.PGrp (.integer (.ofInt32 task.record.pgrp)),
          member ProcessProps.Tpgid (.integer (.ofInt32 task.record.tpgid)),
          member ProcessProps.Session (.integer (.ofInt32 task.record.session)),
          member ProcessProps.Comm (.string task.comm),
          member ProcessProps.Ruid (.integer (.ofInt32 task.uid.toInt32))] ++
        optional ProcessProps.StatComm task.comm ++
        optional ProcessProps.Exe (task.exe.getD []) ++
        optional ProcessProps.CmdLine (joined task.args))
  | .vanished pid =>
      .object [member ProcessProps.Pid (.integer (.ofInt32 pid)),
        member ProcessProps.Error (.string (ascii "Process not found"))]
  | .closed pid =>
      .object [member ProcessProps.Pid (.integer (.ofInt32 pid)),
        member ProcessProps.Error (.string (ascii "Failed to open process"))]

end Entry

namespace Kernel

variable {Double : Type} (kernel : Kernel Double)

/-- What the kernel shows for an entry. -/
def Holds : Entry → Prop
  | .shown task => kernel.Shows task
  | .vanished pid => kernel.stat64 (Host.path pid) = none
  | .closed pid => (kernel.stat64 (Host.path pid)).isSome = true ∧
      kernel.ifstream (Host.path pid ++ ascii "/stat") = none

/-- The directory of the processes: its names that begin with a digit are the pids of the
entries. -/
structure Mounted (entries : List Entry) : Prop where
  strtod : kernel.ExactStrtod
  names : ∃ names, kernel.readdir root = some names ∧
    (names.filter fun name => isDigit (byteAt name 0)) =
      entries.map fun entry => numeral entry.pid.toInt
  pids : (entries.map Entry.pid).Nodup
  pids_pos : ∀ entry ∈ entries, 0 < entry.pid
  holds : ∀ entry ∈ entries, kernel.Holds entry

variable {kernel}

theorem Mounted.enumeratePids_eq {entries : List Entry} (h : kernel.Mounted entries) :
    kernel.view.enumeratePids = entries.map Entry.pid := by
  obtain ⟨names, hOpen, hNames⟩ := h.names
  refine enumeratePids_of_numerals hOpen (fun pid hPid => ?_) (hNames.trans ?_)
  · obtain ⟨entry, hEntry, rfl⟩ := List.mem_map.mp hPid
    have := Int32.lt_iff_toInt_lt.mp (h.pids_pos entry hEntry)
    exact Int32.le_iff_toInt_le.mpr (Int.le_of_lt this)
  · rw [List.map_map]
    rfl

/-- The item for an entry is the value that the client is to be told. -/
theorem valueOf_item {entry : Entry} (hStrtod : kernel.ExactStrtod) (h : kernel.Holds entry)
    (timestamp : UInt32) :
    valueOf (processItem (entry.pid, readProcess kernel.view entry.pid timestamp)) =
      entry.value := by
  cases entry with
  | shown task =>
      have hShows : kernel.Shows task := h
      rw [Entry.pid, hShows.readProcess_eq hStrtod, processItem, valueOf, memberValues_eq_map,
        Entry.value]
      congr 1
      unfold ProcessInfo.fields ProcessInfo.candidates infoOf Entry.optional
      by_cases hComm : task.comm = [] <;> by_cases hExe : task.exe.getD [] = [] <;>
        by_cases hArgs : joined task.args = [] <;>
        simp [hComm, hExe, hArgs, scalar, Entry.member, valueOf, Property.toJson, Any.toJson]
  | vanished pid =>
      have hStat : kernel.readStat pid =
          { pid := pid, startTime := kernel.garbage, error := ascii "Process not found" } := by
        rw [Host.readStat, show kernel.stat64 (Host.path pid) = none from h]
      rw [Entry.pid, processItem, valueOf, memberValues_eq_map, Entry.value]
      congr 1
      unfold ProcessInfo.fields ProcessInfo.candidates readProcess view
      simp [hStat, scalar, Entry.member, valueOf, Property.toJson, Any.toJson]
  | closed pid =>
      obtain ⟨uid, hUid⟩ := Option.isSome_iff_exists.mp h.1
      have hStat : kernel.readStat pid =
          { pid := pid, startTime := kernel.garbage, ruid := uid,
            error := ascii "Failed to open process" } := by
        rw [Host.readStat, hUid]
        dsimp only
        rw [h.2]
      rw [Entry.pid, processItem, valueOf, memberValues_eq_map, Entry.value]
      congr 1
      unfold ProcessInfo.fields ProcessInfo.candidates readProcess view
      simp [hStat, scalar, Entry.member, valueOf, Property.toJson, Any.toJson]

end Kernel

/-! ## The text of a list -/

/-- A list starts from an empty map and enters every pid once, in whatever order. -/
theorem perm_readPids {proc : ProcView} {layout : Layout (Int32 × ProcessInfo)} {timestamp : UInt32}
    (pids : List Int32) : ∀ {processes : List (Int32 × ProcessInfo)}, pids.Nodup →
      (∀ pid ∈ pids, pid ∉ processes.map Prod.fst) →
      (readPids true proc layout timestamp pids processes).Perm
        (processes ++ pids.map fun pid => (pid, readProcess proc pid timestamp)) := by
  induction pids with
  | nil => simp [readPids]
  | cons pid pids ih =>
      intro processes hNodup hNew
      obtain ⟨hPid, hPids⟩ := List.nodup_cons.mp hNodup
      have hInsert : readPid true proc layout timestamp pid processes =
          layout.order (processes ++ [(pid, readProcess proc pid timestamp)]) := by
        unfold readPid Layout.insert
        rw [UnorderedMap.find_eq_none.mpr (hNew pid List.mem_cons_self)]
        rfl
      have hOrder := layout.perm (processes ++ [(pid, readProcess proc pid timestamp)])
      rw [readPids, hInsert]
      refine (ih hPids fun other hOther => ?_).trans ?_
      · rw [(hOrder.map Prod.fst).mem_iff, List.map_append, List.mem_append, List.map_cons,
          List.map_nil, List.mem_singleton, not_or]
        refine ⟨hNew other (List.mem_cons_of_mem _ hOther), ?_⟩
        rintro rfl
        exact hPid hOther
      · rw [List.map_cons]
        exact (hOrder.append_right _).trans (by simp)

/-- A rearranged list of images is the list of images of a rearranged list. -/
theorem exists_map_of_perm {α β : Type} {f : α → β} {l : List β} {xs : List α}
    (h : l.Perm (xs.map f)) : ∃ ys : List α, ys.Perm xs ∧ l = ys.map f := by
  have hImages : List.Forall₂ (fun b a => b = f a) (xs.map f) xs :=
    List.forall₂_map_left_iff.mpr (List.forall₂_same.mpr fun _ _ => rfl)
  obtain ⟨ys, hYs, hPerm⟩ := List.perm_comp_forall₂ h hImages
  refine ⟨ys, hPerm, ?_⟩
  have hEq : List.Forall₂ Eq l (ys.map f) := List.forall₂_map_right_iff.mpr hYs
  rwa [List.forall₂_eq_eq_eq] at hEq

/-- What the text of a list is to say. -/
def listing (id : Int32) (entries : List Entry) : Value Empty :=
  .object [Entry.member ProcessProps.ProcessList (.array (entries.map Entry.value)),
    Entry.member Request.Id (.integer (.ofInt32 id)),
    Entry.member Response.Status (.string Response.Success.bytes)]

/-- What a list comes to if the kernel shows some processes. -/
theorem Kernel.Mounted.lists {Double : Type} {kernel : Kernel Double} {entries : List Entry}
    (h : kernel.Mounted entries) (layout : Layout (Int32 × ProcessInfo)) (session : Session)
    (id : Int32) :
    ∃ session' members,
      listProcesses true kernel.view layout session id (.table [] []) =
        some (session', .table [] members) ∧
      ∀ visited, Reordered (.table [] members) visited →
        ∃ text order, propertyBagToJson knownRegistry visited = .ok text ∧ order.Perm entries ∧
          Renders text (listing id order) := by
  let timestamp := session.timestamp + 1
  let listed : Session :=
    { session with
      timestamp
      processes := readPids true kernel.view layout timestamp kernel.view.enumeratePids []
      removedPids := [] }
  have hRead : readProcesses true kernel.view layout session = some listed := rfl
  refine ⟨listed, responseMembers true listed id, ?_, fun visited hVisited => ?_⟩
  · rw [listProcesses, hRead]
    simp only [Option.bind_eq_bind, Option.bind_some, respond_eq, Option.pure_def]
  · obtain ⟨text, hText, hRenders⟩ := renders_of_writable (writable_list listed id) hVisited
    -- the map has the entries in some order
    have hMap : listed.processes.Perm (entries.map fun entry =>
        (entry.pid, readProcess kernel.view entry.pid timestamp)) := by
      have hPids := h.pids
      rw [← h.enumeratePids_eq] at hPids
      refine (perm_readPids _ hPids (by simp)).trans (.of_eq ?_)
      rw [h.enumeratePids_eq, List.map_map]
      rfl
    obtain ⟨order, hOrder, hEntries⟩ := exists_map_of_perm hMap
    have hItems : listed.processes.map (fun m => valueOf (processItem m)) =
        order.map Entry.value := by
      rw [hEntries, List.map_map]
      refine List.map_congr_left fun entry hEntry => ?_
      exact Kernel.valueOf_item h.strtod (h.holds entry (hOrder.mem_iff.mp hEntry)) timestamp
    refine ⟨text, order, hText, hOrder, ?_⟩
    have hValue : valueOf (.table [] (responseMembers true listed id)) = listing id order := by
      rw [valueOf, memberValues_eq_map, listing, ← hItems]
      simp [responseMembers, scalar, valueOf, itemValues_eq_map, Property.toJson, Any.toJson,
        Entry.member]
    rwa [hValue] at hRenders

/-- A process with the name of another one's record, and with an empty argument. -/
def imitator : Task where
  record := Host.imitator
  more := [0, -3]
  uid := 1000
  comm := ascii "a) S 1 2 (b"
  exe := some (ascii "/bin/sh")
  args := [ascii "sh", [], ascii "-c"]
  pid_pos := by decide
  record_comm := by decide +kernel
  record_state := by decide
  comm_line := by decide +kernel
  exe_noNul := by decide +kernel
  args_noNul := by decide +kernel

end Kexplorer.Process

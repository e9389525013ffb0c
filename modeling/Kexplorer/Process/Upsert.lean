import Kexplorer.Process.ProcessManager

/-!
# What the first loop of a diff does to the map

`readProcesses` searches the map that it inserts into and swaps entries of.  The
result is the same for every order of the pids: an enumerated pid has what was
read for it, and it is a newcomer if it had no entry before; the other entries
are as they were.  So a new pid is reported once, unless a diff does not get that
far because another process is gone (`diff_upserts_iff`).

`stale_iff` is about the loop behind it: whether an entry is older than the
request is asked of a counter that wraps around.
-/

namespace Kexplorer.Process

open Kexplorer.Json Kexplorer.Lib Kexplorer.Props Kexplorer.Util

/-! ## Lookups -/

/-- What is found does not depend on the order of a map. -/
theorem find_perm {κ α : Type} [DecidableEq κ] {l l' : List (κ × α)} (h : l.Perm l')
    (hNodup : (l.map Prod.fst).Nodup) (key : κ) :
    UnorderedMap.find l' key = UnorderedMap.find l key := by
  apply Option.ext
  intro value
  have hOld := UnorderedMap.mem_iff_find hNodup (m := (key, value))
  have hNew := UnorderedMap.mem_iff_find ((h.map Prod.fst).nodup_iff.mp hNodup) (m := (key, value))
  exact hNew.symm.trans (h.mem_iff.symm.trans hOld)

theorem Layout.find_insert {κ α : Type} [DecidableEq κ] (layout : Layout (κ × α))
    {members : List (κ × α)} (hNodup : (members.map Prod.fst).Nodup) (k key : κ) (value : α) :
    UnorderedMap.find (layout.insert members k value) key =
      UnorderedMap.find (UnorderedMap.insert members k value) key := by
  unfold insert UnorderedMap.insert
  split
  · rfl
  · rename_i hNew
    have hNodup' := UnorderedMap.nodup_insert hNodup k value
    rw [UnorderedMap.insert, if_neg hNew] at hNodup'
    exact find_perm (layout.perm _).symm hNodup' key

section

variable {proc : ProcView} {layout : Layout (Int32 × ProcessInfo)} {timestamp : UInt32}

/-- What a diff stores for a pid, given the map that it meets. -/
def stored (proc : ProcView) (timestamp : UInt32) (processes : List (Int32 × ProcessInfo))
    (pid : Int32) : ProcessInfo :=
  { readProcess proc pid timestamp with newcomer := (UnorderedMap.find processes pid).isNone }

/-- Reading a pid in a diff stores what was read, with the flag if the pid is new. -/
theorem find_readPid {processes : List (Int32 × ProcessInfo)}
    (hNodup : (processes.map Prod.fst).Nodup) (pid other : Int32) :
    UnorderedMap.find (readPid false proc layout timestamp pid processes) other =
      if other = pid then some (stored proc timestamp processes pid)
      else UnorderedMap.find processes other := by
  unfold readPid stored
  dsimp only
  rw [Bool.not_false, if_pos rfl]
  cases hFind : UnorderedMap.find processes pid with
  | none =>
      dsimp only
      rw [layout.find_insert hNodup, UnorderedMap.find_insert]
      by_cases hPid : other = pid
      · subst hPid
        rw [hFind, if_pos rfl, if_pos rfl]
        rfl
      · rw [if_neg hPid, if_neg hPid, Option.or_none]
  | some old =>
      dsimp only
      rw [ProcessManager.find_swapIn, hFind]
      rfl

/-- After the first loop of a diff, every pid read has what was stored for it, and the rest of the
map is as it was. -/
theorem find_readPids (pids : List Int32) : ∀ {processes : List (Int32 × ProcessInfo)},
    pids.Nodup → (processes.map Prod.fst).Nodup → ∀ other,
      UnorderedMap.find (readPids false proc layout timestamp pids processes) other =
        if other ∈ pids then some (stored proc timestamp processes other)
        else UnorderedMap.find processes other := by
  induction pids with
  | nil => exact fun _ _ other => rfl
  | cons pid pids ih =>
      intro processes hPids hNodup other
      rw [List.nodup_cons] at hPids
      rw [readPids, ih hPids.2 (nodup_readPid pid hNodup)]
      by_cases hOther : other ∈ pids
      · -- a pid that is still to come is not the one just read
        have hNe : other ≠ pid := fun hEq => hPids.1 (hEq ▸ hOther)
        rw [if_pos hOther, if_pos (List.mem_cons_of_mem _ hOther), stored, find_readPid hNodup,
          if_neg hNe, stored]
      · rw [if_neg hOther, find_readPid hNodup]
        by_cases hPid : other = pid
        · rw [if_pos hPid, if_pos (hPid ▸ List.mem_cons_self), hPid]
        · rw [if_neg hPid, if_neg fun hMem => (List.mem_cons.mp hMem).elim hPid hOther]

end

/-! ## The map behind the loop -/

/-- The map `after` has what was just read for the enumerated pids, with the flag for those that
`before` did not have, and is the map `before` otherwise. -/
structure Upserted (proc : ProcView) (timestamp : UInt32) (before after : List (Int32 × ProcessInfo)) :
    Prop where
  nodup : (after.map Prod.fst).Nodup
  enumerated : ∀ pid ∈ proc.enumeratePids, UnorderedMap.find after pid =
    some { readProcess proc pid timestamp with
      newcomer := (UnorderedMap.find before pid).isNone }
  others : ∀ pid, pid ∉ proc.enumeratePids →
    UnorderedMap.find after pid = UnorderedMap.find before pid

theorem upserted_readPids (proc : ProcView) (layout : Layout (Int32 × ProcessInfo))
    (timestamp : UInt32) {processes : List (Int32 × ProcessInfo)}
    (hPids : proc.enumeratePids.Nodup) (hNodup : (processes.map Prod.fst).Nodup) :
    Upserted proc timestamp processes
      (readPids false proc layout timestamp proc.enumeratePids processes) := by
  have hFind := @find_readPids proc layout timestamp proc.enumeratePids processes hPids hNodup
  refine ⟨nodup_readPids _ hNodup, fun pid hPid => ?_, fun pid hPid => ?_⟩
  · rw [hFind, if_pos hPid, stored]
  · rw [hFind, if_neg hPid]

/-- A diff that has a result leaves the map as the first loop left it. -/
theorem processes_of_diff {proc : ProcView} {layout : Layout (Int32 × ProcessInfo)}
    {session session' : Session} (h : readProcesses false proc layout session = some session') :
    session'.processes =
        readPids false proc layout (session.timestamp + 1) proc.enumeratePids session.processes ∧
      session'.timestamp = session.timestamp + 1 := by
  unfold readProcesses at h
  simp only [Bool.false_eq_true, if_false, Iterator.begin, detectDeleted_eq] at h
  split at h
  · cases h
  · rename_i hLoop
    split at hLoop
    · cases hLoop
    · cases hLoop
      cases h
      exact ⟨rfl, rfl⟩

/-- No entry of a list has the flag. -/
theorem newcomer_readPids_initial {proc : ProcView} {layout : Layout (Int32 × ProcessInfo)}
    {timestamp : UInt32} (pids : List Int32) : ∀ {processes : List (Int32 × ProcessInfo)},
      (∀ m ∈ processes, m.2.newcomer = false) →
      ∀ m ∈ readPids true proc layout timestamp pids processes, m.2.newcomer = false := by
  induction pids with
  | nil => exact fun h => h
  | cons pid pids ih =>
      intro processes h
      refine ih fun m hm => ?_
      unfold readPid Layout.insert at hm
      dsimp only at hm
      rw [Bool.not_true, if_neg Bool.false_ne_true] at hm
      split at hm
      · exact h m hm
      · rw [(layout.perm _).mem_iff, List.mem_append, List.mem_singleton] at hm
        rcases hm with hm | rfl
        · exact h m hm
        · rfl

/-! ## The flag in the responses -/

/-- In the array of the processes, the table that stands for the entry of a pid has
`process.newcomer`. -/
def ReportedNew (response : PropertyBag) (session : Session) (pid : Int32) : Prop :=
  ∃ members name items, ∃ index : Nat, ∃ process table,
    response = .table [] members ∧
    UnorderedMap.find members ProcessProps.ProcessList.idstr.bytes = some (.array name items) ∧
    session.processes[index]? = some (pid, process) ∧
    items[index]? = some (PropertyBag.table [] table) ∧
    (UnorderedMap.find table ProcessProps.Newcomer.idstr.bytes).isSome = true

/-- The flag is a member of the table exactly if it is set. -/
theorem find_newcomer (process : ProcessInfo) :
    (UnorderedMap.find (process.fields.map scalar) ProcessProps.Newcomer.idstr.bytes).isSome = true ↔
      process.newcomer = true := by
  have hCandidate : (process.newcomer, ProcessProps.Newcomer, Any.bool true) ∈ process.candidates :=
    List.mem_cons_of_mem _ List.mem_cons_self
  rw [find_fields hCandidate]
  cases process.newcomer <;> simp

theorem find_processList (initial : Bool) (session : Session) (id : Int32) :
    UnorderedMap.find (responseMembers initial session id) ProcessProps.ProcessList.idstr.bytes =
      some (.array ProcessProps.ProcessList.idstr.bytes (session.processes.map processItem)) := by
  rw [responseMembers, List.append_assoc, List.singleton_append, UnorderedMap.find_cons, if_pos rfl]

/-- A response has the flag for the pids whose entry has it. -/
theorem reportedNew_iff (initial : Bool) (session : Session) (id pid : Int32) :
    ReportedNew (.table [] (responseMembers initial session id)) session pid ↔
      ∃ process, (pid, process) ∈ session.processes ∧ process.newcomer = true := by
  constructor
  · rintro ⟨members, name, items, index, process, table, hResponse, hArray, hEntry, hItem, hFlag⟩
    cases hResponse
    rw [find_processList] at hArray
    cases hArray
    rw [List.getElem?_map, hEntry] at hItem
    cases hItem
    exact ⟨process, List.mem_of_getElem? hEntry, (find_newcomer process).mp hFlag⟩
  · rintro ⟨process, hMem, hFlag⟩
    obtain ⟨index, hEntry⟩ := List.getElem?_of_mem hMem
    refine ⟨_, _, session.processes.map processItem, index, process, process.fields.map scalar, rfl,
      find_processList initial session id, hEntry, ?_, (find_newcomer process).mpr hFlag⟩
    rw [List.getElem?_map, hEntry]
    rfl

/-- Diffs go through one behind the other, the pid is reported as new by the first one if `fresh`
holds, and by no other. -/
def ReportedNewOnce (pid : Int32) : Bool → Session → List (Int32 × Request) → Prop
  | _, _, [] => True
  | fresh, session, (id, diff) :: diffs =>
      ∃ session' response,
        listProcesses false diff.proc diff.layout session id (.table [] []) =
            some (session', response) ∧
          (ReportedNew response session' pid ↔ fresh = true) ∧
          ReportedNewOnce pid false session' diffs

/-- None of the diffs meets an entry that is older than it, of a process that it does not find
again. -/
def NoneOlder : Session → List (Int32 × Request) → Prop
  | _, [] => True
  | session, (_, diff) :: diffs =>
      (∀ m ∈ session.processes, m.1 ∉ diff.proc.enumeratePids →
        ¬ m.2.timestamp < session.timestamp + 1) ∧
      ∀ session', readProcesses false diff.proc diff.layout session = some session' →
        NoneOlder session' diffs

/-- As long as the pid is enumerated, it is reported as new once if and only if nothing else is
gone. -/
theorem reportedNewOnce_iff (pid : Int32) (diffs : List (Int32 × Request)) :
    ∀ {session : Session}, (session.processes.map Prod.fst).Nodup →
      (∀ d ∈ diffs, d.2.proc.enumeratePids.Nodup ∧ pid ∈ d.2.proc.enumeratePids) →
      (ReportedNewOnce pid (UnorderedMap.find session.processes pid).isNone session diffs ↔
        NoneOlder session diffs) := by
  induction diffs with
  | nil => exact fun _ _ => Iff.rfl
  | cons d diffs ih =>
      intro session hNodup hDiffs
      obtain ⟨id, diff⟩ := d
      obtain ⟨⟨hPids, hPid⟩, hRest⟩ := List.forall_mem_cons.mp hDiffs
      rw [ReportedNewOnce, NoneOlder, listProcesses_eq]
      cases hRead : readProcesses false diff.proc diff.layout session with
      | none =>
          obtain ⟨-, m, hm, hGone, hOlder⟩ := readProcesses_eq_none_iff.mp hRead
          refine iff_of_false ?_ fun hNone => hNone.1 m hm hGone hOlder
          rintro ⟨session', response, hList, -⟩
          cases hList
      | some session' =>
          have hNone : ∀ m ∈ session.processes, m.1 ∉ diff.proc.enumeratePids →
              ¬ m.2.timestamp < session.timestamp + 1 := by
            intro m hm hGone hOlder
            cases hRead.symm.trans (readProcesses_eq_none_iff.mpr ⟨rfl, m, hm, hGone, hOlder⟩)
          have hMap := upserted_readPids diff.proc diff.layout (session.timestamp + 1) hPids hNodup
          rw [← (processes_of_diff hRead).1] at hMap
          have hEntry := hMap.enumerated pid hPid
          have hReported :
              ReportedNew (.table [] (responseMembers false session' id)) session' pid ↔
                (UnorderedMap.find session.processes pid).isNone = true := by
            rw [reportedNew_iff]
            simp only [UnorderedMap.mem_iff_find hMap.nodup, hEntry, Option.some.injEq,
              exists_eq_left']
          -- from here on the pid has an entry
          have hNext := ih hMap.nodup hRest
          rw [hEntry, Option.isNone_some] at hNext
          constructor
          · rintro ⟨_, _, hList, -, hOnce⟩
            cases hList
            refine ⟨hNone, fun _ hEq => ?_⟩
            cases hEq
            exact hNext.mp hOnce
          · rintro ⟨-, hLater⟩
            exact ⟨session', _, rfl, hReported, hNext.mpr (hLater session' rfl)⟩

/-- What is said of the flag: the first loop of a diff upserts the enumerated pids; along diffs that
enumerate the pid, only the first one reports it as new; and a list reports no pid as new. -/
structure FlagsNew (session : Session) (pid : Int32) (diffs : List (Int32 × Request)) : Prop where
  upserts : ∀ (proc : ProcView) (layout : Layout (Int32 × ProcessInfo)), proc.enumeratePids.Nodup →
    Upserted proc (session.timestamp + 1) session.processes
      (readPids false proc layout (session.timestamp + 1) proc.enumeratePids session.processes)
  once : ReportedNewOnce pid (UnorderedMap.find session.processes pid).isNone session diffs
  never : ∀ (proc : ProcView) (layout : Layout (Int32 × ProcessInfo)) (id : Int32),
    ∃ session' response,
      listProcesses true proc layout session id (.table [] []) = some (session', response) ∧
        ∀ pid, ¬ ReportedNew response session' pid

/-- A list goes through and reports nothing as new. -/
theorem list_reports_none (proc : ProcView) (layout : Layout (Int32 × ProcessInfo))
    (session : Session) (id : Int32) :
    ∃ session' response,
      listProcesses true proc layout session id (.table [] []) = some (session', response) ∧
        ∀ pid, ¬ ReportedNew response session' pid := by
  rw [listProcesses_eq]
  refine ⟨_, _, rfl, fun pid => ?_⟩
  rw [reportedNew_iff]
  rintro ⟨process, hMem, hFlag⟩
  have hPlain := newcomer_readPids_initial proc.enumeratePids
    (List.forall_mem_nil fun m : Int32 × ProcessInfo => m.2.newcomer = false) _ hMem
  cases hPlain.symm.trans hFlag

/-- The flag is as it should be if and only if, in every diff, nothing but the pids that are
enumerated is in the map, unless it is as young as the diff. -/
theorem diff_upserts_iff (session : Session) (hMap : (session.processes.map Prod.fst).Nodup)
    (pid : Int32) (diffs : List (Int32 × Request))
    (hDiffs : ∀ d ∈ diffs, d.2.proc.enumeratePids.Nodup ∧ pid ∈ d.2.proc.enumeratePids) :
    FlagsNew session pid diffs ↔ NoneOlder session diffs := by
  rw [← reportedNewOnce_iff pid diffs hMap hDiffs]
  refine ⟨fun h => h.once, fun hOnce => ⟨?_, hOnce, ?_⟩⟩
  · exact fun proc layout hPids => upserted_readPids proc layout _ hPids hMap
  · exact fun proc layout id => list_reports_none proc layout session id

/-- A session that has listed pid 7. -/
def listedSeven : Session where
  sessionId := 1
  timestamp := 1
  processes := [(7, readProcess (.of [7]) 7 1)]

theorem diff_upserts_iff_listed :
    FlagsNew listedSeven 9
        [(1, ⟨false, .of [9, 7], .inOrder _⟩), (2, ⟨false, .of [7, 9], .inOrder _⟩)] ↔
      NoneOlder listedSeven
        [(1, ⟨false, .of [9, 7], .inOrder _⟩), (2, ⟨false, .of [7, 9], .inOrder _⟩)] :=
  diff_upserts_iff listedSeven (by simp [listedSeven]) 9 _ (by simp [ProcView.of])

/-- A new process is not reported if another one is gone. -/
theorem new_unreported :
    (listedSeven.processes.map Prod.fst).Nodup ∧
      (ProcView.of [9]).enumeratePids.Nodup ∧ 9 ∈ (ProcView.of [9]).enumeratePids ∧
      UnorderedMap.find listedSeven.processes 9 = none ∧
      readProcesses false (.of [9]) (.inOrder _) listedSeven = none ∧
      ¬ FlagsNew listedSeven 9 [(1, ⟨false, .of [9], .inOrder _⟩)] := by
  have hNone : readProcesses false (.of [9]) (.inOrder _) listedSeven = none :=
    readProcesses_eq_none_iff.mpr
      ⟨rfl, _, List.mem_cons_self, by simp [ProcView.of], by decide⟩
  refine ⟨by simp [listedSeven], by simp [ProcView.of], by simp [ProcView.of], rfl, hNone, ?_⟩
  rintro ⟨-, ⟨session', response, hList, -⟩, -⟩
  rw [listProcesses_eq, hNone] at hList
  cases hList

/-! ## Stale entries -/

/-- When the second loop of a diff begins, the entries whose timestamp is less than that of the
session are those of the pids that were not enumerated. -/
def StaleRecognised (proc : ProcView) (layout : Layout (Int32 × ProcessInfo)) (session : Session) :
    Prop :=
  ∀ m ∈ readPids false proc layout (session.timestamp + 1) proc.enumeratePids session.processes,
    m.2.timestamp < session.timestamp + 1 ↔ m.1 ∉ proc.enumeratePids

theorem lt_add_one_iff (n : UInt32) : n < n + 1 ↔ n ≠ 0xFFFFFFFF := by
  rw [UInt32.lt_iff_toNat_lt, UInt32.toNat_add, ne_eq, ← UInt32.toNat_inj]
  have hLt := n.toNat_lt
  have hOne : (1 : UInt32).toNat = 1 := rfl
  have hMax : (0xFFFFFFFF : UInt32).toNat = 4294967295 := rfl
  omega

/-- Stale entries are recognised unless the counter wraps around and there are any. -/
theorem stale_iff (proc : ProcView) (layout : Layout (Int32 × ProcessInfo)) (session : Session)
    (hStamped : ∀ m ∈ session.processes, m.2.timestamp = session.timestamp) :
    StaleRecognised proc layout session ↔
      session.timestamp ≠ 0xFFFFFFFF ∨ ∀ m ∈ session.processes, m.1 ∈ proc.enumeratePids := by
  obtain ⟨hEntries, -, hKept⟩ :=
    @mem_readPids false proc layout (session.timestamp + 1) proc.enumeratePids session.processes
      fun h => Bool.noConfusion h
  constructor
  · intro h
    rw [or_iff_not_imp_left, not_not]
    intro hMax m hm
    by_contra hNot
    have hOld := (h m (hKept m hm hNot)).mpr hNot
    rw [hStamped m hm, lt_add_one_iff] at hOld
    exact hOld hMax
  · intro h m hm
    rcases hEntries m hm with ⟨hIn, hTime⟩ | ⟨hNot, hm⟩
    · rw [hTime]
      exact iff_of_false (UInt32.lt_irrefl _) (not_not.mpr hIn)
    · rw [hStamped m hm, lt_add_one_iff]
      exact iff_of_true (h.resolve_right fun hAll => hNot (hAll m hm)) hNot

/-- A session at the end of its counter that has listed pid 7. -/
def atMax : Session where
  sessionId := 1
  timestamp := 0xFFFFFFFF
  processes := [(7, readProcess (.of [7]) 7 0xFFFFFFFF)]

theorem stale_iff_atMax :
    StaleRecognised (.of [7]) (.inOrder _) atMax ↔
      atMax.timestamp ≠ 0xFFFFFFFF ∨ ∀ m ∈ atMax.processes, m.1 ∈ (ProcView.of [7]).enumeratePids :=
  stale_iff (.of [7]) (.inOrder _) atMax (by simp [atMax, readProcess])

/-- After the wrap-around, the entry of a process that is gone is not older. -/
theorem stale_missed :
    (∀ m ∈ atMax.processes, m.2.timestamp = atMax.timestamp) ∧
      ¬ StaleRecognised (.of []) (.inOrder _) atMax := by
  refine ⟨by simp [atMax, readProcess], fun h => ?_⟩
  have hOld := (h _ List.mem_cons_self).mpr List.not_mem_nil
  exact absurd hOld (by decide)

end Kexplorer.Process

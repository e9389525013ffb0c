import Kexplorer.Lib.Iterator
import Kexplorer.Process.ProcFs
import Kexplorer.Props.PropertyBag
import Mathlib.Algebra.Group.Nat.Defs
import Mathlib.Data.List.Perm.Basic

/-!
# Snapshots of the process list

`ProcessManager::readProcesses` brings a session's map of processes up to date.
Every process read gets the timestamp of the request, and after the entries of a
diff have been inserted or replaced, those with an older timestamp are the
processes that are gone.

The map is an `unordered_map`: the order in which it is visited is whatever
`Layout` makes of it.  What the methods of `m_procFs` return is the input of a
request.  `none` is undefined behaviour.

`runExact_iff` says in which runs the snapshots and the lists of removed pids
are exact: no diff may find a process gone, because the loop that erases its
entry goes on with the iterator it has erased.
-/

namespace Kexplorer.Process

open Kexplorer.Lib Kexplorer.Props

/-- `ProcessManager::ProcessInfo`. -/
structure ProcessInfo where
  timestamp : UInt32
  newcomer : Bool := false
  stat : Stat
  comm : Bytes
  exe : Bytes
  cmdLine : Bytes
  deriving DecidableEq

/-- `ProcessManager::Session`. -/
structure Session where
  sessionId : UInt32
  timestamp : UInt32 := 0
  processes : List (Int32 × ProcessInfo) := []
  removedPids : List Int32 := []
  deriving DecidableEq

/-- What the methods of `m_procFs` return during a request. -/
structure ProcView where
  enumeratePids : List Int32
  readStat : Int32 → Stat
  readComm : Int32 → Bytes
  readExePath : Int32 → Bytes
  readCmdLine : Int32 → Bytes

/-- How a hash map lays its elements out when one is inserted: the order of iteration from the
order before, the new element behind it.  The map grows with every insertion of a request, so
the order may be any at each of them. -/
structure Layout (α : Type) where
  order : List α → List α
  perm : ∀ elements, (order elements).Perm elements

/-- `unordered_map::insert`, with the order of iteration it leads to. -/
def Layout.insert {κ α : Type} [DecidableEq κ] (layout : Layout (κ × α)) (members : List (κ × α))
    (key : κ) (value : α) : List (κ × α) :=
  if (UnorderedMap.find members key).isSome then members
  else layout.order (members ++ [(key, value)])

/-- `std::swap` of a value with the one that a key has. -/
def swapIn {κ α : Type} [DecidableEq κ] (members : List (κ × α)) (key : κ) (value : α) :
    List (κ × α) :=
  members.map fun m => if m.1 = key then (key, value) else m

/-- `ProcessManager::readProcess`. -/
def readProcess (proc : ProcView) (pid : Int32) (timestamp : UInt32) : ProcessInfo where
  timestamp := timestamp
  stat := proc.readStat pid
  comm := proc.readComm pid
  exe := proc.readExePath pid
  cmdLine := proc.readCmdLine pid

/-- The body of the loop of `readProcesses` over the pids. -/
def readPid (initial : Bool) (proc : ProcView) (layout : Layout (Int32 × ProcessInfo))
    (timestamp : UInt32) (pid : Int32) (processes : List (Int32 × ProcessInfo)) :
    List (Int32 × ProcessInfo) :=
  let process := readProcess proc pid timestamp
  if !initial then
    match UnorderedMap.find processes pid with
    | none => layout.insert processes pid { process with newcomer := true }
    | some _ => swapIn processes pid process
  else
    layout.insert processes pid process

/-- The loop of `readProcesses` over the pids. -/
def readPids (initial : Bool) (proc : ProcView) (layout : Layout (Int32 × ProcessInfo))
    (timestamp : UInt32) :
    List Int32 → List (Int32 × ProcessInfo) → List (Int32 × ProcessInfo)
  | [], processes => processes
  | pid :: pids, processes =>
      readPids initial proc layout timestamp pids
        (readPid initial proc layout timestamp pid processes)

/-- The loop of `readProcesses` that detects deleted processes. -/
def detectDeleted (timestamp : UInt32) (it : Iterator (Int32 × ProcessInfo))
    (removedPids : List Int32) : Option (List (Int32 × ProcessInfo) × List Int32) :=
  match it.atEnd with
  | none => none
  | some true => some (it.elements, removedPids)
  | some false =>
      match it.get with
      | none => none
      | some (pid, process) =>
          if process.timestamp < timestamp then
            match hErase : it.erase with
            | none => none
            | some it' =>
                match hNext : it'.next with
                | none => none
                | some it'' => detectDeleted timestamp it'' (removedPids ++ [pid])
          else
            match hNext : it.next with
            | none => none
            | some it' => detectDeleted timestamp it' removedPids
termination_by it.remaining
decreasing_by
  · exact Nat.lt_of_lt_of_le (Iterator.remaining_next hNext) (Iterator.remaining_erase hErase)
  · exact Iterator.remaining_next hNext

/-- `ProcessManager::readProcesses`. -/
def readProcesses (initial : Bool) (proc : ProcView) (layout : Layout (Int32 × ProcessInfo))
    (session : Session) : Option Session :=
  let timestamp := session.timestamp + 1
  let processes := readPids initial proc layout timestamp proc.enumeratePids
    (if initial then [] else session.processes)
  if initial then
    some { session with timestamp, processes, removedPids := [] }
  else
    match detectDeleted timestamp (.begin processes) [] with
    | none => none
    | some (processes, removedPids) => some { session with timestamp, processes, removedPids }

/-! ## The map -/

section

variable {κ α : Type} [DecidableEq κ]

theorem Layout.mem_insert {layout : Layout (κ × α)} {members : List (κ × α)} {key : κ} {value : α}
    (hNew : key ∉ members.map Prod.fst) (m : κ × α) :
    m ∈ layout.insert members key value ↔ m ∈ members ∨ m = (key, value) := by
  rw [insert, if_neg (by rwa [UnorderedMap.find_isSome]), (layout.perm _).mem_iff]
  simp

theorem Layout.nodup_insert (layout : Layout (κ × α)) {members : List (κ × α)}
    (h : (members.map Prod.fst).Nodup) (key : κ) (value : α) :
    ((layout.insert members key value).map Prod.fst).Nodup := by
  have hInsert := UnorderedMap.nodup_insert h key value
  unfold insert
  unfold UnorderedMap.insert at hInsert
  split
  · exact h
  · rename_i hNone
    rw [if_neg hNone] at hInsert
    exact ((layout.perm _).map Prod.fst).nodup_iff.mpr hInsert

theorem keys_swapIn (members : List (κ × α)) (key : κ) (value : α) :
    (swapIn members key value).map Prod.fst = members.map Prod.fst := by
  rw [swapIn, List.map_map]
  apply List.map_congr_left
  intro m _
  rw [Function.comp_apply]
  split
  · rename_i hKey
    exact hKey.symm
  · rfl

theorem mem_swapIn {members : List (κ × α)} {key : κ} {value : α}
    (hOld : key ∈ members.map Prod.fst) (m : κ × α) :
    m ∈ swapIn members key value ↔ m = (key, value) ∨ m ∈ members ∧ m.1 ≠ key := by
  rw [swapIn, List.mem_map]
  constructor
  · rintro ⟨m', hm', rfl⟩
    split
    · exact .inl rfl
    · rename_i hKey
      exact .inr ⟨hm', hKey⟩
  · rintro (rfl | ⟨hm, hKey⟩)
    · obtain ⟨m', hm', rfl⟩ := List.mem_map.mp hOld
      exact ⟨m', hm', if_pos rfl⟩
    · exact ⟨m, hm, if_neg hKey⟩

end

/-! ## The two loops -/

section

variable {initial : Bool} {proc : ProcView} {layout : Layout (Int32 × ProcessInfo)}
  {timestamp : UInt32}

/-- After a pid was read it has an entry of this request, and the others have theirs. -/
theorem mem_readPid {processes : List (Int32 × ProcessInfo)} {pid : Int32}
    (hInitial : initial = true → pid ∉ processes.map Prod.fst) :
    ∃ process : ProcessInfo, process.timestamp = timestamp ∧
      ∀ m, m ∈ readPid initial proc layout timestamp pid processes ↔
        m = (pid, process) ∨ m ∈ processes ∧ m.1 ≠ pid := by
  have hOthers (hNew : pid ∉ processes.map Prod.fst) (process : ProcessInfo)
      (m : Int32 × ProcessInfo) : m ∈ layout.insert processes pid process ↔
        m = (pid, process) ∨ m ∈ processes ∧ m.1 ≠ pid := by
    rw [Layout.mem_insert hNew, or_comm]
    refine or_congr Iff.rfl (and_iff_left_of_imp fun hm hKey => ?_).symm
    exact hNew (hKey ▸ List.mem_map_of_mem hm)
  unfold readPid
  cases initial with
  | true => exact ⟨_, rfl, hOthers (hInitial rfl) _⟩
  | false =>
      cases hFind : UnorderedMap.find processes pid with
      | none => exact ⟨_, rfl, hOthers (UnorderedMap.find_eq_none.mp hFind) _⟩
      | some old =>
          exact ⟨_, rfl, mem_swapIn (UnorderedMap.find_isSome.mp (Option.isSome_of_eq_some hFind))⟩

/-- Reading a pid keeps the keys distinct. -/
theorem nodup_readPid {processes : List (Int32 × ProcessInfo)} (pid : Int32)
    (hNodup : (processes.map Prod.fst).Nodup) :
    ((readPid initial proc layout timestamp pid processes).map Prod.fst).Nodup := by
  unfold readPid
  cases initial with
  | true => exact layout.nodup_insert hNodup _ _
  | false =>
      cases UnorderedMap.find processes pid with
      | none => exact layout.nodup_insert hNodup _ _
      | some old => exact (keys_swapIn processes pid _).symm ▸ hNodup

theorem nodup_readPids (pids : List Int32) : ∀ {processes : List (Int32 × ProcessInfo)},
    (processes.map Prod.fst).Nodup →
      ((readPids initial proc layout timestamp pids processes).map Prod.fst).Nodup := by
  induction pids with
  | nil => exact id
  | cons pid pids ih => exact fun hNodup => ih (nodup_readPid pid hNodup)

/-- After the first loop every pid read has an entry, all its entries are of this request, and no
other entry was touched. -/
theorem mem_readPids (pids : List Int32) : ∀ {processes : List (Int32 × ProcessInfo)},
    (initial = true → pids.Nodup ∧ ∀ pid ∈ pids, pid ∉ processes.map Prod.fst) →
      (∀ m ∈ readPids initial proc layout timestamp pids processes,
        m.1 ∈ pids ∧ m.2.timestamp = timestamp ∨ m.1 ∉ pids ∧ m ∈ processes) ∧
      (∀ pid ∈ pids, pid ∈ (readPids initial proc layout timestamp pids processes).map Prod.fst) ∧
      ∀ m ∈ processes, m.1 ∉ pids → m ∈ readPids initial proc layout timestamp pids processes := by
  induction pids with
  | nil =>
      intro processes _
      exact ⟨fun m hm => .inr ⟨List.not_mem_nil, hm⟩, List.forall_mem_nil _, fun m hm _ => hm⟩
  | cons pid pids ih =>
      intro processes hInitial
      obtain ⟨process, hTime, hMem⟩ := @mem_readPid initial proc layout timestamp processes pid
        fun h => (hInitial h).2 pid List.mem_cons_self
      have hFresh (h : initial = true) : pids.Nodup ∧ ∀ other ∈ pids,
          other ∉ (readPid initial proc layout timestamp pid processes).map Prod.fst := by
        obtain ⟨hNodup, hNew⟩ := hInitial h
        rw [List.nodup_cons] at hNodup
        refine ⟨hNodup.2, fun other hOther hKey => ?_⟩
        obtain ⟨m, hm, rfl⟩ := List.mem_map.mp hKey
        rcases (hMem m).mp hm with rfl | ⟨hm, -⟩
        · exact hNodup.1 hOther
        · exact hNew _ (List.mem_cons_of_mem _ hOther) (List.mem_map_of_mem hm)
      obtain ⟨hEntries, hRead, hKept⟩ := ih hFresh
      refine ⟨fun m hm => ?_, fun other hOther => ?_, fun m hm hNot => ?_⟩
      · rcases hEntries m hm with ⟨hIn, hTime⟩ | ⟨hNot, hm⟩
        · exact .inl ⟨List.mem_cons_of_mem _ hIn, hTime⟩
        · rcases (hMem m).mp hm with rfl | ⟨hm, hKey⟩
          · exact .inl ⟨List.mem_cons_self, hTime⟩
          · exact .inr ⟨by simp [hKey, hNot], hm⟩
      · by_cases hLater : other ∈ pids
        · exact hRead other hLater
        · obtain rfl := (List.mem_cons.mp hOther).resolve_right hLater
          exact List.mem_map_of_mem (hKept (other, process) ((hMem _).mpr (.inl rfl)) hLater)
      · rw [List.mem_cons, not_or] at hNot
        exact hKept m ((hMem m).mpr (.inr ⟨hm, hNot.1⟩)) hNot.2

/-- The second loop leaves everything as it is, or runs into undefined behaviour at the first
entry that is older. -/
theorem detectDeleted_eq (timestamp : UInt32) (after : List (Int32 × ProcessInfo)) :
    ∀ (before : List (Int32 × ProcessInfo)) (removedPids : List Int32),
      detectDeleted timestamp (.valid before after) removedPids =
        if ∃ m ∈ after, m.2.timestamp < timestamp then none
        else some (before ++ after, removedPids) := by
  induction after with
  | nil =>
      intro before removedPids
      rw [detectDeleted]
      simp [Iterator.atEnd, Iterator.elements]
  | cons m after ih =>
      intro before removedPids
      obtain ⟨pid, process⟩ := m
      rw [detectDeleted]
      by_cases hOld : process.timestamp < timestamp
      · simp [Iterator.atEnd, Iterator.get, Iterator.erase, Iterator.next, hOld]
      · simp only [Iterator.atEnd, List.isEmpty_cons, Iterator.get, List.head?_cons, hOld, if_false,
          Iterator.next, ih, List.exists_mem_cons_iff, false_or, List.append_assoc,
          List.singleton_append]

end

/-- Among the entries that the first loop of a diff leaves, the older ones are those of the pids
that were not read. -/
theorem readPids_older {proc : ProcView} {layout : Layout (Int32 × ProcessInfo)}
    {timestamp : UInt32} (pids : List Int32) (processes : List (Int32 × ProcessInfo)) :
    (∃ m ∈ readPids false proc layout timestamp pids processes, m.2.timestamp < timestamp) ↔
      ∃ m ∈ processes, m.1 ∉ pids ∧ m.2.timestamp < timestamp := by
  obtain ⟨hEntries, -, hKept⟩ :=
    @mem_readPids false proc layout timestamp pids processes fun h => Bool.noConfusion h
  constructor
  · rintro ⟨m, hm, hOld⟩
    rcases hEntries m hm with ⟨-, hTime⟩ | ⟨hNot, hm⟩
    · rw [hTime] at hOld
      exact absurd hOld (UInt32.lt_irrefl _)
    · exact ⟨m, hm, hNot, hOld⟩
  · rintro ⟨m, hm, hNot, hOld⟩
    exact ⟨m, hKept m hm hNot, hOld⟩

/-- A request runs into undefined behaviour exactly if it is a diff and an entry that it does not
read again is older. -/
theorem readProcesses_eq_none_iff {initial : Bool} {proc : ProcView}
    {layout : Layout (Int32 × ProcessInfo)} {session : Session} :
    readProcesses initial proc layout session = none ↔
      initial = false ∧ ∃ m ∈ session.processes, m.1 ∉ proc.enumeratePids ∧
        m.2.timestamp < session.timestamp + 1 := by
  unfold readProcesses
  cases initial with
  | true => simp
  | false =>
      simp only [Bool.false_eq_true, if_false, Iterator.begin, detectDeleted_eq, readPids_older,
        true_and]
      split
      · rename_i hNone
        split at hNone
        · rename_i hOlder
          exact iff_of_true rfl hOlder
        · cases hNone
      · rename_i hSome
        split at hSome
        · cases hSome
        · rename_i hOlder
          exact iff_of_false nofun hOlder

/-! ## Runs -/

/-- A session as constructed. -/
def Session.new (id : UInt32) : Session := { sessionId := id }

/-- A request of a session: `list_processes` or `diff_processes`, and what it meets. -/
structure Request where
  initial : Bool
  proc : ProcView
  layout : Layout (Int32 × ProcessInfo)

/-- The keys of the map are the pids enumerated, each once, and after a diff `removedPids` has
the pids of the previous snapshot that were not enumerated, each once. -/
structure Exact (previous : List Int32) (request : Request) (session : Session) : Prop where
  keys : (session.processes.map Prod.fst).Perm request.proc.enumeratePids
  nodup : request.initial = false → session.removedPids.Nodup
  removed : request.initial = false → ∀ pid,
    pid ∈ session.removedPids ↔ pid ∈ previous ∧ pid ∉ request.proc.enumeratePids

/-- A run without undefined behaviour that is exact after each request. -/
def RunExact (previous : List Int32) (session : Session) : List Request → Prop
  | [] => True
  | request :: requests =>
      ∃ session', readProcesses request.initial request.proc request.layout session =
          some session' ∧
        Exact previous request session' ∧
        RunExact request.proc.enumeratePids session' requests

/-- Every diff enumerates every pid of the previous snapshot. -/
def NoneGone (previous : List Int32) : List Request → Prop
  | [] => True
  | request :: requests =>
      (request.initial = false → ∀ pid ∈ previous, pid ∈ request.proc.enumeratePids) ∧
        NoneGone request.proc.enumeratePids requests

/-- The state after `count` requests, the last of which enumerated `pids`: every entry has the
timestamp of that request. -/
structure UpToDate (count : Nat) (pids : List Int32) (session : Session) : Prop where
  timestamp : session.timestamp.toNat = count
  nodup : (session.processes.map Prod.fst).Nodup
  keys : ∀ pid, pid ∈ session.processes.map Prod.fst ↔ pid ∈ pids
  entries : ∀ m ∈ session.processes, m.2.timestamp = session.timestamp

theorem upToDate_new (id : UInt32) : UpToDate 0 [] (Session.new id) where
  timestamp := rfl
  nodup := List.nodup_nil
  keys _ := Iff.rfl
  entries := List.forall_mem_nil _

section

variable {count : Nat} {previous : List Int32} {session : Session} {request : Request}

/-- The timestamp goes up as long as it does not wrap around. -/
theorem UpToDate.timestamp_lt (h : UpToDate count previous session) (hCount : count + 1 < 2 ^ 32) :
    session.timestamp < session.timestamp + 1 ∧ (session.timestamp + 1).toNat = count + 1 := by
  have hTime := h.timestamp
  have hNext : (session.timestamp + 1).toNat = count + 1 := by
    rw [UInt32.toNat_add, hTime]
    exact Nat.mod_eq_of_lt hCount
  refine ⟨?_, hNext⟩
  rw [UInt32.lt_iff_toNat_lt, hNext, hTime]
  exact Nat.lt_succ_self count

/-- What the first loop leaves of an up-to-date session. -/
theorem UpToDate.readPids_spec (h : UpToDate count previous session)
    (hPids : request.proc.enumeratePids.Nodup) :
    let processes := readPids request.initial request.proc request.layout (session.timestamp + 1)
      request.proc.enumeratePids (if request.initial then [] else session.processes)
    (processes.map Prod.fst).Nodup ∧
      (∀ m ∈ processes, m.1 ∈ request.proc.enumeratePids ∧ m.2.timestamp = session.timestamp + 1 ∨
        m.1 ∉ request.proc.enumeratePids ∧ request.initial = false ∧ m ∈ session.processes) ∧
      ∀ pid ∈ request.proc.enumeratePids, pid ∈ processes.map Prod.fst := by
  have hStart : ((if request.initial then [] else session.processes).map Prod.fst).Nodup := by
    split
    · exact List.nodup_nil
    · exact h.nodup
  obtain ⟨hEntries, hRead, -⟩ :=
    @mem_readPids request.initial request.proc request.layout (session.timestamp + 1)
      request.proc.enumeratePids (if request.initial then [] else session.processes)
      fun hInitial => ⟨hPids, by simp [hInitial]⟩
  refine ⟨nodup_readPids _ hStart, fun m hm => ?_, hRead⟩
  rcases hEntries m hm with hm | ⟨hNot, hm⟩
  · exact .inl hm
  · split at hm
    · cases hm
    · rename_i hInitial
      exact .inr ⟨hNot, by simpa using hInitial, hm⟩

/-- A request that finds no process gone leaves an exact and up-to-date session. -/
theorem UpToDate.readProcesses_spec (h : UpToDate count previous session)
    (hCount : count + 1 < 2 ^ 32) (hPids : request.proc.enumeratePids.Nodup)
    (hNone : request.initial = false → ∀ pid ∈ previous, pid ∈ request.proc.enumeratePids) :
    ∃ session', readProcesses request.initial request.proc request.layout session =
        some session' ∧
      Exact previous request session' ∧
      UpToDate (count + 1) request.proc.enumeratePids session' := by
  obtain ⟨hLt, hTime⟩ := h.timestamp_lt hCount
  obtain ⟨hNodup, hEntries, hRead⟩ := h.readPids_spec hPids
  generalize hProcesses : readPids request.initial request.proc request.layout
    (session.timestamp + 1) request.proc.enumeratePids
    (if request.initial then [] else session.processes) = processes at hNodup hEntries hRead
  -- no entry of an older snapshot is left
  have hAll : ∀ m ∈ processes,
      m.1 ∈ request.proc.enumeratePids ∧ m.2.timestamp = session.timestamp + 1 := by
    intro m hm
    rcases hEntries m hm with hm | ⟨hNot, hInitial, hm⟩
    · exact hm
    · exact absurd (hNone hInitial m.1 ((h.keys _).mp (List.mem_map_of_mem hm))) hNot
  have hKeys : ∀ pid, pid ∈ processes.map Prod.fst ↔ pid ∈ request.proc.enumeratePids := by
    intro pid
    refine ⟨fun hKey => ?_, hRead pid⟩
    obtain ⟨m, hm, rfl⟩ := List.mem_map.mp hKey
    exact (hAll m hm).1
  have hFresh : ¬ ∃ m ∈ processes, m.2.timestamp < session.timestamp + 1 := by
    rintro ⟨m, hm, hOld⟩
    rw [(hAll m hm).2] at hOld
    exact absurd hOld (UInt32.lt_irrefl _)
  have hResult : readProcesses request.initial request.proc request.layout session =
      some { session with timestamp := session.timestamp + 1, processes, removedPids := [] } := by
    unfold readProcesses
    simp only [hProcesses, Iterator.begin, detectDeleted_eq, if_neg hFresh, List.nil_append, ite_self]
  refine ⟨_, hResult, ⟨?_, fun _ => List.nodup_nil, fun hInitial pid => ?_⟩, ?_⟩
  · exact (List.perm_ext_iff_of_nodup hNodup hPids).mpr hKeys
  · exact iff_of_false List.not_mem_nil fun hGone => hGone.2 (hNone hInitial pid hGone.1)
  · exact ⟨hTime, hNodup, hKeys, fun m hm => (hAll m hm).2⟩

/-- A diff that finds a process gone runs into undefined behaviour. -/
theorem UpToDate.readProcesses_of_gone (h : UpToDate count previous session)
    (hCount : count + 1 < 2 ^ 32) (hInitial : request.initial = false) {pid : Int32}
    (hPrevious : pid ∈ previous) (hGone : pid ∉ request.proc.enumeratePids) :
    readProcesses request.initial request.proc request.layout session = none := by
  obtain ⟨m, hm, rfl⟩ := List.mem_map.mp ((h.keys pid).mpr hPrevious)
  refine readProcesses_eq_none_iff.mpr ⟨hInitial, m, hm, hGone, ?_⟩
  rw [h.entries m hm]
  exact (h.timestamp_lt hCount).1

end

/-- A run is exact from an up-to-date session on if and only if no diff finds a process gone. -/
theorem UpToDate.exact_iff_noneGone (requests : List Request) :
    ∀ {count : Nat} {previous : List Int32} {session : Session}, UpToDate count previous session →
      count + requests.length < 2 ^ 32 → (∀ r ∈ requests, r.proc.enumeratePids.Nodup) →
      (RunExact previous session requests ↔ NoneGone previous requests) := by
  induction requests with
  | nil => exact fun _ _ _ => Iff.rfl
  | cons request requests ih =>
      intro count previous session h hCount hPids
      rw [List.length_cons] at hCount
      obtain ⟨hHead, hTail⟩ := List.forall_mem_cons.mp hPids
      rw [RunExact, NoneGone]
      by_cases hNone : request.initial = false → ∀ pid ∈ previous, pid ∈ request.proc.enumeratePids
      · obtain ⟨session', hResult, hExact, hNext⟩ :=
          h.readProcesses_spec (by omega) hHead hNone
        have hRest := ih hNext (by omega) hTail
        constructor
        · rintro ⟨session'', hResult', -, hRun⟩
          rw [hResult, Option.some.injEq] at hResult'
          subst hResult'
          exact ⟨hNone, hRest.mp hRun⟩
        · rintro ⟨-, hNoneGone⟩
          exact ⟨session', hResult, hExact, hRest.mpr hNoneGone⟩
      · refine iff_of_false ?_ fun hAll => hNone hAll.1
        rintro ⟨session', hResult, -⟩
        push Not at hNone
        obtain ⟨hInitial, pid, hPrevious, hGone⟩ := hNone
        rw [h.readProcesses_of_gone (by omega) hInitial hPrevious hGone] at hResult
        cases hResult

/-- The run of a session is exact if and only if every diff enumerates every pid of the previous
snapshot. -/
theorem runExact_iff (id : UInt32) (requests : List Request) (hCount : requests.length < 2 ^ 32)
    (hPids : ∀ r ∈ requests, r.proc.enumeratePids.Nodup) :
    RunExact [] (Session.new id) requests ↔ NoneGone [] requests :=
  (upToDate_new id).exact_iff_noneGone requests (by omega) hPids

/-- A `/proc` with some processes and nothing to read about them. -/
def ProcView.of (pids : List Int32) : ProcView where
  enumeratePids := pids
  readStat pid := { valid := true, pid := pid, startTime := 0 }
  readComm _ := []
  readExePath _ := []
  readCmdLine _ := []

/-- A map that is visited in the order of insertion. -/
def Layout.inOrder (α : Type) : Layout α := ⟨id, fun _ => .refl _⟩

theorem runExact_iff_started :
    RunExact [] (Session.new 1)
        [⟨true, .of [1, 7], .inOrder _⟩, ⟨false, .of [7, 1, 9], .inOrder _⟩] ↔
      NoneGone [] [⟨true, .of [1, 7], .inOrder _⟩, ⟨false, .of [7, 1, 9], .inOrder _⟩] :=
  runExact_iff 1 _ (by decide) (by simp [ProcView.of])

/-- When the only process is gone, the loop advances the iterator that it has erased. -/
theorem gone_undefined :
    (∀ r ∈ [(⟨true, .of [7], .inOrder _⟩ : Request), ⟨false, .of [], .inOrder _⟩],
        r.proc.enumeratePids.Nodup) ∧
      ¬ RunExact [] (Session.new 1) [⟨true, .of [7], .inOrder _⟩, ⟨false, .of [], .inOrder _⟩] := by
  refine ⟨by simp [ProcView.of], ?_⟩
  rw [(upToDate_new 1).exact_iff_noneGone _ (by decide) (by simp [ProcView.of])]
  simp [NoneGone, ProcView.of]

end Kexplorer.Process

import Kexplorer.Process.ReadStat
import Kexplorer.Process.Snapshot

/-!
# The files of a process

The methods of `ProcFs` besides `readStat`: the name, the executable and the command
line of a process, the directory of all processes, and the time of the last boot.

`Task` is what the kernel shows of a process in these files, and `Shows` says which
files show it.  `readProcess_of_shows` is that `ProcessManager::readProcess` gets it
back from them.
-/

namespace Kexplorer.Process

open Kexplorer.Json Kexplorer.Util

/-- What `ProcFs` finds outside the program. -/
structure Kernel (Double : Type) extends Host Double where
  /-- `st_size` of an existing path, as `lstat` has it. -/
  lstat : Bytes → Option Nat
  /-- The target of a link, if `::readlink` may read it. -/
  readlink : Bytes → Option Bytes
  /-- The names that `::readdir` yields of a directory that `::opendir` opens. -/
  readdir : Bytes → Option (List Bytes)

/-- `KernelPid`. -/
def KernelPid : Int32 := 0

/-- `PATH_MAX`. -/
def PATH_MAX : Nat := 4096

/-- What a loop over `std::getline` reads: the text behind the last delimiter is a line if there is
one. -/
def getlines (delim : UInt8) (content : Bytes) : List Bytes :=
  if content = [] then []
  else
    content.takeWhile (· ≠ delim) ::
      getlines delim (content.drop ((content.takeWhile (· ≠ delim)).length + 1))
termination_by content.length
decreasing_by
  rw [List.length_drop]
  have := List.length_pos_iff.mpr ‹content ≠ []›
  omega

/-- `std::stoul`; `none` is `std::out_of_range`.  It is called for texts with a digit in front. -/
def stoul (s : Bytes) : Option UInt64 :=
  if 2 ^ 64 ≤ (subject s).2 then none else some (strtoul s)

/-- The body of the loop of `enumeratePids`. -/
def pidOf (d_name : Bytes) : Option Int32 :=
  if isDigit (byteAt d_name 0) then (stoul d_name).map fun n => n.toUInt32.toInt32 else none

/-- The loop of `getBootTimeImpl`; `none` is an exception, which leaves a function that is
`noexcept`. -/
def findBootTime : List Bytes → Option UInt64
  | [] => some 0
  | s :: lines =>
      if (ascii "btime").isPrefixOf s then
        if s.length < 6 then none
        else if s.drop 6 ≠ [] then some (strtoull (s.drop 6))
        else some 0
      else findBootTime lines

/-- The body of the loop of `readCmdLine`. -/
def appendArg (cmdLine a : Bytes) : Bytes :=
  if a ≠ [] then (if cmdLine ≠ [] then cmdLine ++ ascii " " else cmdLine) ++ a else cmdLine

namespace Kernel

variable {Double : Type} (kernel : Kernel Double)

/-- `ProcFs::root`. -/
def root : Bytes := ascii "/proc"

/-- `ProcFs::readComm`. -/
def readComm (pid : Int32) : Bytes :=
  match kernel.ifstream (Host.path pid ++ ascii "/comm") with
  | none => []
  | some content => getline content

/-- `ProcFs::readExePath`: `readlink` fills the buffer as far as it goes. -/
def readExePath (pid : Int32) : Bytes :=
  match kernel.lstat (Host.path pid ++ ascii "/exe") with
  | none => []
  | some st_size =>
      let size := if st_size = 0 then PATH_MAX else st_size
      match kernel.readlink (Host.path pid ++ ascii "/exe") with
      | none => []
      | some target =>
          let exe := target.take size
          cstr (exe ++ List.replicate (size + 1 - exe.length) 0)

/-- `path` in `readCmdLine`. -/
def cmdLinePath (pid : Int32) : Bytes :=
  (if pid ≠ KernelPid then root ++ ascii "/" ++ numeral pid.toInt else root) ++ ascii "/cmdline"

/-- `ProcFs::readCmdLine`. -/
def readCmdLine (pid : Int32) : Bytes :=
  match kernel.ifstream (cmdLinePath pid) with
  | none => []
  | some content => (getlines 0 content).foldl appendArg []

/-- `ProcFs::enumeratePids`. -/
def enumeratePids : List Int32 :=
  match kernel.readdir root with
  | none => []
  | some names => names.filterMap pidOf

/-- `ProcFs::getBootTimeImpl`. -/
def getBootTimeImpl : Option UInt64 :=
  match kernel.ifstream (root ++ ascii "/stat") with
  | none => some 0
  | some content => findBootTime (getlines 0x0A content)

/-- What the process manager gets to see. -/
def view : ProcView where
  enumeratePids := kernel.enumeratePids
  readStat := kernel.readStat
  readComm := kernel.readComm
  readExePath := kernel.readExePath
  readCmdLine := kernel.readCmdLine

end Kernel

/-! ## Lines -/

theorem getlines_nil (delim : UInt8) : getlines delim [] = [] := by
  rw [getlines, if_pos rfl]

/-- A line up to its delimiter. -/
theorem getlines_cons {delim : UInt8} {line : Bytes} (h : delim ∉ line) (rest : Bytes) :
    getlines delim (line ++ delim :: rest) = line :: getlines delim rest := by
  have hLine : (line ++ delim :: rest).takeWhile (· ≠ delim) = line := by
    rw [List.takeWhile_append_of_pos, List.takeWhile_cons_of_neg (by simp), List.append_nil]
    intro c hc
    rw [decide_eq_true_eq]
    rintro rfl
    exact h hc
  rw [getlines, if_neg (by simp), hLine]
  simp

/-- Lines that are all terminated are read back. -/
theorem getlines_terminated {delim : UInt8} {lines : List Bytes}
    (h : ∀ line ∈ lines, delim ∉ line) :
    getlines delim (lines.flatMap fun line => line ++ [delim]) = lines := by
  induction lines with
  | nil => exact getlines_nil delim
  | cons line lines ih =>
      obtain ⟨hLine, hLines⟩ := List.forall_mem_cons.mp h
      rw [List.flatMap_cons, List.append_assoc, List.singleton_append, getlines_cons hLine,
        ih hLines]

/-- The filling of a buffer is cut off. -/
theorem cstr_append_replicate {s : Bytes} (h : 0 ∉ s) (n : Nat) :
    cstr (s ++ List.replicate n 0) = s := by
  rw [cstr, List.takeWhile_append_of_pos]
  · cases n <;> simp [List.replicate_succ]
  · intro c hc
    rw [decide_eq_true_eq]
    rintro rfl
    exact h hc

/-! ## The command line -/

/-- The arguments that are not empty, with a space between them. -/
def joined (args : List Bytes) : Bytes := (ascii " ").intercalate (args.filter (· ≠ []))

theorem intercalate_cons (sep : Bytes) (rest : List Bytes) (a : Bytes) :
    sep.intercalate (a :: rest) = a ++ rest.flatMap fun b => sep ++ b := by
  induction rest generalizing a with
  | nil => simp [List.intercalate]
  | cons b rest ih =>
      rw [List.intercalate_cons_cons, ih, List.flatMap_cons]
      simp only [List.append_assoc]

theorem foldl_appendArg (args : List Bytes) : ∀ {cmdLine : Bytes}, cmdLine ≠ [] →
    args.foldl appendArg cmdLine =
      cmdLine ++ (args.filter (· ≠ [])).flatMap fun a => ascii " " ++ a := by
  induction args with
  | nil => simp
  | cons a args ih =>
      intro cmdLine hCmdLine
      rw [List.foldl_cons]
      by_cases hArg : a = []
      · rw [appendArg, if_neg (not_not.mpr hArg), ih hCmdLine,
          List.filter_cons_of_neg (by simp [hArg])]
      · rw [appendArg, if_pos hArg, if_pos hCmdLine, ih (by simp [hCmdLine]),
          List.filter_cons_of_pos (by simp [hArg])]
        simp only [List.append_assoc, List.flatMap_cons]

theorem foldl_appendArg_nil (args : List Bytes) : args.foldl appendArg [] = joined args := by
  induction args with
  | nil => rfl
  | cons a args ih =>
      rw [List.foldl_cons, joined]
      by_cases hArg : a = []
      · rw [appendArg, if_neg (not_not.mpr hArg), ih, List.filter_cons_of_neg (by simp [hArg]),
          joined]
      · have hFirst : appendArg [] a = a := by
          rw [appendArg, if_pos hArg, if_neg (not_not.mpr rfl), List.nil_append]
        rw [hFirst, foldl_appendArg args hArg, List.filter_cons_of_pos (by simp [hArg]),
          intercalate_cons]

/-! ## The directory of the processes -/

/-- The names that begin with a digit are taken for pids. -/
theorem filterMap_pidOf (names : List Bytes) :
    names.filterMap pidOf =
      (names.filter fun name => isDigit (byteAt name 0)).filterMap fun name =>
        (stoul name).map fun n => n.toUInt32.toInt32 := by
  rw [List.filterMap_filter]
  rfl

theorem toNat_toUInt32 {pid : Int32} (h : 0 ≤ pid) : pid.toUInt32.toNat = pid.toInt.natAbs := by
  have hInt : (0 : Int) ≤ pid.toInt := Int32.le_iff_toInt_le.mp h
  have hValue : pid.toInt = pid.toBitVec.toInt := rfl
  have hNat : pid.toUInt32.toNat = pid.toBitVec.toNat := rfl
  rw [BitVec.toInt_eq_toNat_cond] at hValue
  have := pid.toBitVec.isLt
  split at hValue <;> omega

/-- The numeral of a pid is read back. -/
theorem stoul_numeral {pid : Int32} (h : 0 ≤ pid) :
    (stoul (numeral pid.toInt)).map (fun n => n.toUInt32.toInt32) = some pid := by
  have hNat := toNat_toUInt32 h
  have hLt := pid.toUInt32.toNat_lt
  have hInt : (pid.toUInt32.toUInt64.toNat : Int) = pid.toInt := by
    have : (0 : Int) ≤ pid.toInt := Int32.le_iff_toInt_le.mp h
    rw [UInt32.toNat_toUInt64]
    omega
  have hSubject := stops_nil.subject_numeral pid.toInt
  have hValue := stops_nil.strtoul_numeral pid.toUInt32.toUInt64
  rw [hInt, List.append_nil] at hValue
  rw [List.append_nil] at hSubject
  rw [stoul, hSubject, if_neg (by dsimp only; omega), hValue, Option.map_some,
    UInt32.toUInt32_toUInt64, Int32.toInt32_toUInt32]

/-- If they are the numerals of pids, these are enumerated. -/
theorem enumeratePids_of_numerals {Double : Type} {kernel : Kernel Double} {names : List Bytes}
    {pids : List Int32} (hOpen : kernel.readdir Kernel.root = some names)
    (hPids : ∀ pid ∈ pids, 0 ≤ pid)
    (hNames : (names.filter fun name => isDigit (byteAt name 0)) =
      pids.map fun pid => numeral pid.toInt) :
    kernel.enumeratePids = pids := by
  rw [Kernel.enumeratePids, hOpen]
  dsimp only
  rw [filterMap_pidOf, hNames, List.filterMap_map]
  clear hNames
  induction pids with
  | nil => rfl
  | cons pid pids ih =>
      obtain ⟨hPid, hPids⟩ := List.forall_mem_cons.mp hPids
      rw [List.filterMap_cons, Function.comp_apply, stoul_numeral hPid, ih hPids]

/-! ## The time of the last boot -/

/-- Whether a line is taken for the one that tells the time. -/
def isBootTime (s : Bytes) : Bool := (ascii "btime").isPrefixOf s

/-- The first such line decides. -/
theorem findBootTime_append {before : List Bytes} (h : ∀ s ∈ before, isBootTime s = false)
    (lines : List Bytes) : findBootTime (before ++ lines) = findBootTime lines := by
  induction before with
  | nil => rfl
  | cons s before ih =>
      obtain ⟨hFirst, hRest⟩ := List.forall_mem_cons.mp h
      rw [List.cons_append, findBootTime, if_neg (by rw [← isBootTime, hFirst]; exact nofun),
        ih hRest]

/-- The time is read back from the statistics of the kernel. -/
theorem getBootTimeImpl_of_lines {Double : Type} {kernel : Kernel Double}
    {before after : List Bytes} {time : UInt64}
    (hBefore : ∀ s ∈ before, isBootTime s = false ∧ 0x0A ∉ s)
    (hAfter : ∀ s ∈ after, 0x0A ∉ s)
    (hOpen : kernel.ifstream (Kernel.root ++ ascii "/stat") =
      some ((before ++ (ascii "btime " ++ numeral time.toNat) :: after).flatMap
        fun line => line ++ [0x0A])) :
    kernel.getBootTimeImpl = some time := by
  have hTime : (0x0A : UInt8) ∉ ascii "btime " ++ numeral time.toNat := by
    rw [List.mem_append, not_or]
    exact ⟨by decide, foreign_newline.notMem_numeral _⟩
  have hDrop : (ascii "btime " ++ numeral time.toNat).drop 6 = numeral time.toNat := rfl
  have hRead := stops_nil.strtoull_numeral time
  obtain ⟨c, digits, hNumeral, -⟩ := exists_cons_numeral (time.toNat : Int)
  rw [List.append_nil] at hRead
  rw [Kernel.getBootTimeImpl, hOpen]
  dsimp only
  rw [getlines_terminated, findBootTime_append fun s hs => (hBefore s hs).1, findBootTime,
    if_pos (by rfl), if_neg, hDrop, if_pos, hRead]
  · rw [hNumeral]
    exact List.cons_ne_nil _ _
  · rw [List.length_append]
    exact Nat.not_lt.mpr (Nat.le_add_right _ _)
  · intro line hLine
    rcases List.mem_append.mp hLine with hLine | hLine
    · exact (hBefore line hLine).2
    · rcases List.mem_cons.mp hLine with rfl | hLine
      · exact hTime
      · exact hAfter line hLine

/-- A machine with its statistics in three lines. -/
def booted : Kernel Int64 :=
  { Host.serving 0 0 [] with
    ifstream := fun p =>
      if p = Kernel.root ++ ascii "/stat" then
        some ([ascii "cpu 7 1", ascii "btime 1700000000", ascii "processes 5"].flatMap
          fun line => line ++ [0x0A])
      else none
    lstat := fun _ => none
    readlink := fun _ => none
    readdir := fun _ => none }

theorem getBootTimeImpl_of_lines_booted : booted.getBootTimeImpl = some 1700000000 := by
  have hOpen : booted.ifstream (Kernel.root ++ ascii "/stat") =
      some (([ascii "cpu 7 1"] ++ (ascii "btime " ++ numeral (1700000000 : UInt64).toNat) ::
        [ascii "processes 5"]).flatMap fun line => line ++ [0x0A]) := by decide +kernel
  exact getBootTimeImpl_of_lines (by decide) (by decide) hOpen

/-- The program ends if the line has nothing behind its name. -/
theorem findBootTime_eq_none_iff (lines : List Bytes) :
    findBootTime lines = none ↔
      ∃ before after, lines = before ++ ascii "btime" :: after ∧
        ∀ s ∈ before, isBootTime s = false := by
  constructor
  · induction lines with
    | nil => exact nofun
    | cons s lines ih =>
        intro h
        rw [findBootTime, ← isBootTime] at h
        cases hFirst : isBootTime s with
        | false =>
            rw [hFirst, if_neg Bool.false_ne_true] at h
            obtain ⟨before, after, rfl, hBefore⟩ := ih h
            exact ⟨s :: before, after, rfl, List.forall_mem_cons.mpr ⟨hFirst, hBefore⟩⟩
        | true =>
            rw [hFirst, if_pos rfl] at h
            obtain ⟨rest, rfl⟩ := List.isPrefixOf_iff_prefix.mp hFirst
            have hRest : rest = [] := by
              by_contra hNil
              have hPos := List.length_pos_iff.mpr hNil
              rw [if_neg] at h
              · split at h <;> cases h
              · rw [List.length_append]
                exact Nat.not_lt.mpr (Nat.add_le_add_left hPos 5)
            exact ⟨[], lines, by rw [hRest]; rfl, List.forall_mem_nil _⟩
  · rintro ⟨before, after, rfl, hBefore⟩
    rw [findBootTime_append hBefore]
    rfl

/-! ## What the kernel shows of a process -/

/-- A process, with the record that the kernel writes about it and the fields behind those that
are read. -/
structure Task where
  record : Stat
  more : List Int
  uid : UInt32
  comm : Bytes
  /-- Threads of the kernel have no executable. -/
  exe : Option Bytes
  args : List Bytes
  pid_pos : 0 < record.pid
  record_comm : ∀ c ∈ record.comm, c ≠ 0 ∧ c ≠ 0x0A
  record_state : isLetter record.state = true
  comm_line : 0x0A ∉ comm
  exe_noNul : ∀ target ∈ exe, 0 ∉ target
  args_noNul : ∀ arg ∈ args, 0 ∉ arg

/-- The pid of a process. -/
def Task.pid (task : Task) : Int32 := task.record.pid

namespace Kernel

variable {Double : Type} (kernel : Kernel Double)

/-- The files of a process are there.  The size of a link may be unknown. -/
structure Shows (task : Task) : Prop where
  stat64 : kernel.stat64 (Host.path task.pid) = some task.uid
  stat : kernel.ifstream (Host.path task.pid ++ ascii "/stat") =
    some (task.record.line task.more ++ [0x0A])
  comm : kernel.ifstream (Host.path task.pid ++ ascii "/comm") = some (task.comm ++ [0x0A])
  exe : ∃ st_size, kernel.lstat (Host.path task.pid ++ ascii "/exe") = some st_size ∧
    kernel.readlink (Host.path task.pid ++ ascii "/exe") = task.exe ∧
    ∀ target ∈ task.exe, target.length ≤ if st_size = 0 then PATH_MAX else st_size
  cmdline : kernel.ifstream (Host.path task.pid ++ ascii "/cmdline") =
    some (task.args.flatMap fun arg => arg ++ [0])

/-- What the process manager keeps of a process. -/
def infoOf (task : Task) (timestamp : UInt32) : ProcessInfo where
  timestamp := timestamp
  stat := { task.record with
    valid := true
    error := []
    startTime := kernel.fromRelativeTime task.record.starttime
    ruid := task.uid }
  comm := task.comm
  exe := task.exe.getD []
  cmdLine := joined task.args

variable {kernel} {task : Task}

theorem Shows.readStat_eq (h : kernel.Shows task) (hStrtod : kernel.ExactStrtod)
    (timestamp : UInt32) : kernel.readStat task.pid = (kernel.infoOf task timestamp).stat :=
  Host.readStat_line hStrtod task.pid task.uid task.record task.more [0x0A] task.record_comm
    task.record_state (.inr ⟨[], rfl⟩) h.stat64 h.stat

theorem Shows.readComm_eq (h : kernel.Shows task) : kernel.readComm task.pid = task.comm := by
  rw [readComm, h.comm]
  exact Host.getline_append task.comm_line (.inr ⟨[], rfl⟩)

/-- A link is read back unless it is longer than its size. -/
theorem Shows.readExePath_eq (h : kernel.Shows task) :
    kernel.readExePath task.pid = task.exe.getD [] := by
  obtain ⟨st_size, hSize, hLink, hFits⟩ := h.exe
  rw [readExePath, hSize]
  dsimp only
  rw [hLink]
  rcases hExe : task.exe with _ | target
  · rfl
  · dsimp only
    rw [List.take_of_length_le (hFits target hExe)]
    exact cstr_append_replicate (task.exe_noNul target hExe) _

theorem Shows.readCmdLine_eq (h : kernel.Shows task) :
    kernel.readCmdLine task.pid = joined task.args := by
  have hPid : task.pid ≠ KernelPid := by
    intro hEq
    have := task.pid_pos
    rw [← Task.pid, hEq] at this
    exact absurd this (by decide)
  have hPath : cmdLinePath task.pid = Host.path task.pid ++ ascii "/cmdline" := by
    rw [cmdLinePath, if_pos hPid]
    rfl
  rw [readCmdLine, hPath, h.cmdline]
  dsimp only
  rw [getlines_terminated task.args_noNul, foldl_appendArg_nil]

/-- What the kernel shows of a process is what the process manager gets. -/
theorem Shows.readProcess_eq (h : kernel.Shows task) (hStrtod : kernel.ExactStrtod)
    (timestamp : UInt32) :
    readProcess kernel.view task.pid timestamp = kernel.infoOf task timestamp := by
  have hStat := h.readStat_eq hStrtod timestamp
  have hComm := h.readComm_eq
  have hExe := h.readExePath_eq
  have hCmdLine := h.readCmdLine_eq
  rw [readProcess, view]
  dsimp only
  rw [hStat, hComm, hExe, hCmdLine]
  rfl

end Kernel

end Kexplorer.Process

import Kexplorer.Process.ProcFs
import Kexplorer.Util.Strtol

/-!
# The stat record of a process

`ProcFs::readStat` reads the first line of `/proc/<pid>/stat` and cuts it into
fields: at white space, but a name in parentheses is skipped up to the last
closing parenthesis of the line.  The fields go into a `Stat` by their position.

Positions in the line are offsets from `s.c_str()`, so that `pEnd` is the length
of the line.  `Cursor` carries what holds at the top of the outer loop.

`readStat_line` says that a line as the kernel writes it is read back, whatever
the name of the process is.
-/

namespace Kexplorer.Process

open Kexplorer.Json Kexplorer.Util

/-- What `readStat` finds outside the program. -/
structure Host (Double : Type) where
  /-- `st_uid` of an existing path. -/
  stat64 : Bytes → Option UInt32
  /-- What a `std::ifstream` yields of a file that it opens. -/
  ifstream : Bytes → Option Bytes
  strtod : Bytes → Double
  /-- The conversion of a `double` to an `int`. -/
  toInt : Double → Int32
  /-- `getBootTime`. -/
  bootTime : UInt64
  /-- `sysconf(_SC_CLK_TCK)`. -/
  clockRes : UInt64
  /-- What is in `startTime` of a new `Stat`. -/
  garbage : UInt64

/-- `std::getline`. -/
def getline (content : Bytes) : Bytes := content.takeWhile (· ≠ 0x0A)

/-- The byte at a position of a line; the terminator is behind the last one. -/
def byteAt (s : Bytes) (i : Nat) : UInt8 := s.getD i 0

/-- `std::strrchr`, as an offset. -/
def strrchr (s : Bytes) (c : UInt8) : Option Nat := lastIndexOf c (cstr s)

/-- The inner loop: the end of the field, unless the record is invalid. -/
def fieldEnd (s : Bytes) (stop : Nat) : Option Nat :=
  if stop < s.length ∧ byteAt s stop ≠ 0 ∧ isspace (byteAt s stop) = false then
    if byteAt s stop = 0x28 then
      match strrchr (s.drop stop) 0x29 with
      | none => none
      | some i =>
          if byteAt s (stop + i) = 0 then none
          else fieldEnd s (stop + i + 1)
    else
      fieldEnd s (stop + 1)
  else
    some stop
termination_by s.length - stop

theorem le_fieldEnd {s : Bytes} {stop stop' : Nat} (h : fieldEnd s stop = some stop') :
    stop ≤ stop' := by
  fun_induction fieldEnd s stop with
  | case1 => cases h
  | case2 => cases h
  | case3 stop _ _ i _ _ ih =>
      have := ih h
      omega
  | case4 stop _ _ ih =>
      have := ih h
      omega
  | case5 => cases h; exact Nat.le_refl _

/-- `start`, `end` and `index` at the top of the outer loop. -/
structure Cursor where
  start : Nat
  stop : Nat
  index : Nat
  le_stop : start ≤ stop
  stop_le : stop ≤ start + 1

/-- Before the first iteration. -/
def Cursor.first : Cursor := ⟨0, 0, 0, Nat.le_refl _, Nat.zero_le _⟩

/-- After an iteration that has found the end of a field. -/
def Cursor.next (c : Cursor) (stop : Nat) : Cursor :=
  ⟨stop, stop + 1, c.index + 1, Nat.le_succ _, Nat.le_refl _⟩

namespace Host

variable {Double : Type} (host : Host Double)

/-- `fromRelativeTime`. -/
def fromRelativeTime (relative : UInt64) : UInt64 := host.bootTime + relative / host.clockRes

/-- The cases of the `switch` for numbers; the text is what `start + 1` points to. -/
def storeNumber (index : Nat) (text : Bytes) (result : Stat) : Stat :=
  match index with
  | 3 => { result with ppid := (strtol text).toInt32 }
  | 4 => { result with pgrp := host.toInt (host.strtod text) }
  | 5 => { result with session := host.toInt (host.strtod text) }
  | 6 => { result with tty_nr := host.toInt (host.strtod text) }
  | 7 => { result with tpgid := host.toInt (host.strtod text) }
  | 8 => { result with flags := (strtoul text).toUInt32 }
  | 9 => { result with minflt := strtoul text }
  | 10 => { result with cminflt := strtoul text }
  | 11 => { result with majflt := strtoul text }
  | 12 => { result with cmajflt := strtoul text }
  | 13 => { result with utime := strtoul text }
  | 14 => { result with stime := strtoul text }
  | 15 => { result with cutime := strtol text }
  | 16 => { result with cstime := strtol text }
  | 17 => { result with priority := strtol text }
  | 18 => { result with nice := strtol text }
  | 19 => { result with num_threads := strtol text }
  | 20 => { result with itrealvalue := strtol text }
  | 21 => { result with starttime := strtoull text }
  | 22 => { result with vsize := strtoul text }
  | 23 => { result with rss := strtol text }
  | 24 => { result with rsslim := strtoul text }
  | 25 => { result with startcode := strtoul text }
  | 26 => { result with endcode := strtoul text }
  | 27 => { result with startstack := strtoul text }
  | 28 => { result with kstkesp := strtoul text }
  | 29 => { result with kstkeip := strtoul text }
  | 30 => { result with signal := strtoul text }
  | 31 => { result with blocked := strtoul text }
  | 32 => { result with sigignore := strtoul text }
  | 33 => { result with sigcatch := strtoul text }
  | 34 => { result with wchan := strtoul text }
  | 35 => { result with nswap := strtoul text }
  | 36 => { result with cnswap := strtoul text }
  | 37 => { result with exit_signal := host.toInt (host.strtod text) }
  | 38 => { result with processor := host.toInt (host.strtod text) }
  | 39 => { result with rt_priority := (strtoul text).toUInt32 }
  | 40 => { result with policy := (strtoul text).toUInt32 }
  | 41 => { result with delayacct_blkio_ticks := strtoull text }
  | 42 => { result with guest_time := strtoul text }
  | 43 => { result with cguest_time := strtol text }
  | 44 => { result with start_data := strtoul text }
  | 45 => { result with end_data := strtoul text }
  | 46 => { result with start_brk := strtoul text }
  | 47 => { result with arg_start := strtoul text }
  | 48 => { result with arg_end := strtoul text }
  | 49 => { result with env_start := strtoul text }
  | 50 => { result with env_end := strtoul text }
  | 51 => { result with exit_code := host.toInt (host.strtod text) }
  | _ => result

/-- The `switch`, for the field of that index, which lies in `[start, stop)`.  All but the first
field have the separator at `start`. -/
def store (s : Bytes) (index start stop : Nat) (result : Stat) : Stat :=
  match index with
  | 0 => { result with pid := (strtol (s.drop start)).toInt32 }
  | 1 =>
      if start + 3 < stop then { result with comm := s.extract (start + 2) (stop - 1) }
      else result
  | 2 => { result with state := byteAt s (start + 1) }
  | _ => host.storeNumber index (s.drop (start + 1)) result

/-- The outer loop.  An error is the early return. -/
def scan (s : Bytes) (c : Cursor) (result : Stat) : Except Stat Stat :=
  if c.start < s.length then
    match h : fieldEnd s c.stop with
    | none => .error { result with error := ascii "Invalid process stat record" }
    | some stop =>
        scan s (c.next stop)
          (if c.start < stop then host.store s c.index c.start stop result else result)
  else
    .ok result
termination_by s.length + 1 - c.stop
decreasing_by
  have := le_fieldEnd h
  have := c.stop_le
  simp only [Cursor.next]
  omega

/-- `path` for a pid. -/
def path (pid : Int32) : Bytes := ascii "/proc" ++ ascii "/" ++ numeral pid.toInt

/-- `ProcFs::readStat`. -/
def readStat (pid : Int32) : Stat :=
  let result : Stat := { pid := pid, startTime := host.garbage }
  match host.stat64 (path pid) with
  | none => { result with error := ascii "Process not found" }
  | some uid =>
      let result := { result with ruid := uid }
      match host.ifstream (path pid ++ ascii "/stat") with
      | none => { result with error := ascii "Failed to open process" }
      | some content =>
          match host.scan (getline content) .first result with
          | .error result => result
          | .ok result =>
              { result with
                startTime := host.fromRelativeTime result.starttime
                valid := true }

end Host

/-! ## Moving along a line -/

theorem of_drop_eq_cons {s : Bytes} {i : Nat} {c : UInt8} {t : Bytes} (h : s.drop i = c :: t) :
    i < s.length ∧ byteAt s i = c ∧ s.drop (i + 1) = t := by
  have hGet : s[i]? = some c := by
    have := congrArg (fun l => l[0]?) h
    simpa using this
  refine ⟨(List.getElem?_eq_some_iff.mp hGet).1, ?_, ?_⟩
  · simp [byteAt, hGet]
  · have := congrArg (List.drop 1) h
    simpa using this

theorem drop_length_of_append {s w rest : Bytes} {i : Nat} (h : s.drop i = w ++ rest) :
    s.drop (i + w.length) = rest := by
  have := congrArg (List.drop w.length) h
  simpa using this

/-- A byte that the inner loop passes without looking for a parenthesis. -/
def Plain (c : UInt8) : Prop := c ≠ 0 ∧ isspace c = false ∧ c ≠ 0x28

/-- What the inner loop stops at. -/
def Separated (rest : Bytes) : Prop := ∀ c ∈ rest.head?, isspace c = true

theorem fieldEnd_separated {s rest : Bytes} {stop : Nat} (hDrop : s.drop stop = rest)
    (h : Separated rest) : fieldEnd s stop = some stop := by
  rw [fieldEnd, if_neg]
  rintro ⟨hLt, -, hSpace⟩
  cases rest with
  | nil =>
      rw [List.drop_eq_nil_iff] at hDrop
      omega
  | cons c rest =>
      rw [(of_drop_eq_cons hDrop).2.1, h c rfl] at hSpace
      cases hSpace

theorem fieldEnd_plain {s w rest : Bytes} {stop : Nat} (hDrop : s.drop stop = w ++ rest)
    (hPlain : ∀ c ∈ w, Plain c) (h : Separated rest) :
    fieldEnd s stop = some (stop + w.length) := by
  induction w generalizing stop with
  | nil => exact fieldEnd_separated hDrop h
  | cons c w ih =>
      obtain ⟨hLt, hByte, hNext⟩ := of_drop_eq_cons hDrop
      obtain ⟨hZero, hSpace, hOpen⟩ := hPlain c (by simp)
      rw [fieldEnd, if_pos ⟨hLt, by rwa [hByte], by rwa [hByte]⟩, if_neg (by rwa [hByte]),
        ih hNext fun d hd => hPlain d (by simp [hd]), List.length_cons]
      congr 1
      omega

/-- A field that starts with a parenthesis goes up to the last closing one. -/
theorem fieldEnd_name {s name rest : Bytes} {stop : Nat}
    (hDrop : s.drop stop = 0x28 :: (name ++ 0x29 :: rest)) (hName : 0 ∉ name) (hZero : 0 ∉ rest)
    (hClose : 0x29 ∉ rest) (h : Separated rest) :
    fieldEnd s stop = some (stop + name.length + 2) := by
  obtain ⟨hLt, hByte, -⟩ := of_drop_eq_cons hDrop
  have hLast : strrchr (s.drop stop) 0x29 = some (name.length + 1) := by
    rw [strrchr, hDrop, cstr_eq_self (by simp [hName, hZero]), ← List.cons_append,
      lastIndexOf_append _ hClose, List.length_cons]
  have hAfter : s.drop (stop + (name.length + 1)) = 0x29 :: rest :=
    drop_length_of_append (w := 0x28 :: name) (by simpa using hDrop)
  obtain ⟨-, hCloseByte, hRest⟩ := of_drop_eq_cons hAfter
  rw [fieldEnd, if_pos ⟨hLt, by rw [hByte]; decide, by rw [hByte]; decide⟩, if_pos hByte, hLast]
  simp only [hCloseByte]
  rw [if_neg (by decide), fieldEnd_separated hRest h]
  rfl

/-! ## A line as the kernel writes it -/

/-- The fields 3 to 51, in order. -/
def Stat.numbers (v : Stat) : List Int :=
  v.ppid.toInt :: v.pgrp.toInt :: v.session.toInt :: v.tty_nr.toInt :: v.tpgid.toInt ::
    v.flags.toNat :: v.minflt.toNat :: v.cminflt.toNat :: v.majflt.toNat :: v.cmajflt.toNat ::
    v.utime.toNat :: v.stime.toNat :: v.cutime.toInt :: v.cstime.toInt :: v.priority.toInt ::
    v.nice.toInt :: v.num_threads.toInt :: v.itrealvalue.toInt :: v.starttime.toNat ::
    v.vsize.toNat :: v.rss.toInt :: v.rsslim.toNat :: v.startcode.toNat :: v.endcode.toNat ::
    v.startstack.toNat :: v.kstkesp.toNat :: v.kstkeip.toNat :: v.signal.toNat ::
    v.blocked.toNat :: v.sigignore.toNat :: v.sigcatch.toNat :: v.wchan.toNat :: v.nswap.toNat ::
    v.cnswap.toNat :: v.exit_signal.toInt :: v.processor.toInt :: v.rt_priority.toNat ::
    v.policy.toNat :: v.delayacct_blkio_ticks.toNat :: v.guest_time.toNat ::
    v.cguest_time.toInt :: v.start_data.toNat :: v.end_data.toNat :: v.start_brk.toNat ::
    v.arg_start.toNat :: v.arg_end.toNat :: v.env_start.toNat :: v.env_end.toNat ::
    v.exit_code.toInt :: []

/-- Numerals with a space in front of each. -/
def spaced (numbers : List Int) : Bytes := numbers.flatMap fun n => 0x20 :: numeral n

/-- The line `pid (comm) state ppid ... exit_code`, and more numbers behind it. -/
def Stat.line (v : Stat) (more : List Int) : Bytes :=
  numeral v.pid.toInt ++ ascii " (" ++ v.comm ++ ascii ") " ++ [v.state] ++
    spaced (v.numbers ++ more)

/-- Letters of the alphabet. -/
def isLetter (c : UInt8) : Bool := (0x41 ≤ c && c ≤ 0x5A) || (0x61 ≤ c && c ≤ 0x7A)

theorem spaced_cons (n : Int) (numbers : List Int) :
    spaced (n :: numbers) = 0x20 :: (numeral n ++ spaced numbers) := by
  simp [spaced]

theorem separated_spaced (numbers : List Int) : Separated (spaced numbers) := by
  cases numbers with
  | nil => rintro c ⟨⟩
  | cons n numbers =>
      rw [spaced_cons]
      rintro c ⟨⟩
      decide

theorem stops_spaced (numbers : List Int) : Stops (spaced numbers) := by
  cases numbers with
  | nil => exact stops_nil
  | cons n numbers =>
      rw [spaced_cons]
      exact stops_cons (by decide) _

theorem plain_of_isDigit {c : UInt8} (h : isDigit c = true) : Plain c := by
  refine ⟨?_, (not_isspace_of_isDigit h).1, ?_⟩
  · rintro rfl
    cases h
  · rintro rfl
    cases h

theorem plain_of_mem_numeral {n : Int} {c : UInt8} (h : c ∈ numeral n) : Plain c := by
  rcases of_mem_numeral h with rfl | hDigit
  · exact ⟨by decide, by decide, by decide⟩
  · exact plain_of_isDigit hDigit

/-- What stands neither in a numeral nor between two of them. -/
def Foreign (c : UInt8) : Prop := c ≠ 0x20 ∧ c ≠ 0x2D ∧ isDigit c = false

theorem Foreign.notMem_numeral {c : UInt8} (h : Foreign c) (n : Int) : c ∉ numeral n := by
  intro hMem
  rcases of_mem_numeral hMem with rfl | hDigit
  · exact h.2.1 rfl
  · rw [h.2.2] at hDigit
    cases hDigit

theorem Foreign.notMem_spaced {c : UInt8} (h : Foreign c) (numbers : List Int) :
    c ∉ spaced numbers := by
  intro hMem
  obtain ⟨n, -, hMem⟩ := List.mem_flatMap.mp hMem
  rcases List.mem_cons.mp hMem with rfl | hMem
  · exact h.1 rfl
  · exact h.notMem_numeral n hMem

/-- It stands behind the name only as the state. -/
theorem Foreign.notMem_behind {c state : UInt8} (h : Foreign c) (hState : state ≠ c)
    (numbers : List Int) : c ∉ 0x20 :: state :: spaced numbers := by
  rw [List.mem_cons, List.mem_cons, not_or, not_or]
  exact ⟨h.1, Ne.symm hState, h.notMem_spaced numbers⟩

theorem foreign_zero : Foreign 0 := ⟨by decide, by decide, by decide⟩

theorem foreign_close : Foreign 0x29 := ⟨by decide, by decide, by decide⟩

theorem foreign_newline : Foreign 0x0A := ⟨by decide, by decide, by decide⟩

namespace Host

variable {Double : Type} {host : Host Double}

theorem scan_of_le {s : Bytes} {c : Cursor} (h : s.length ≤ c.start) (result : Stat) :
    host.scan s c result = .ok result := by
  rw [scan, if_neg (by omega)]

theorem scan_field {s : Bytes} {c : Cursor} {stop : Nat} (hStart : c.start < s.length)
    (hEnd : fieldEnd s c.stop = some stop) (hStop : c.start < stop) (result : Stat) :
    host.scan s c result =
      host.scan s (c.next stop) (host.store s c.index c.start stop result) := by
  rw [scan, if_pos hStart]
  split
  · simp_all
  · simp_all

/-- `strtod` and the conversion to an `int` give back the 32-bit integers. -/
def ExactStrtod (host : Host Double) : Prop :=
  ∀ (n : Int32) (rest : Bytes), Separated rest →
    host.toInt (host.strtod (numeral n.toInt ++ rest)) = n

/-- The numbers of a line, stored one after the other. -/
def storeAll (host : Host Double) : Nat → List Int → Stat → Stat
  | _, [], result => result
  | index, n :: numbers, result =>
      host.storeAll (index + 1) numbers
        (host.storeNumber index (numeral n ++ spaced numbers) result)

theorem store_of_le {index : Nat} (h : 3 ≤ index) (s : Bytes) (start stop : Nat) (result : Stat) :
    host.store s index start stop result = host.storeNumber index (s.drop (start + 1)) result := by
  match index, h with
  | _ + 3, _ => rfl

/-- The fields from a separator on are stored one after the other. -/
theorem scan_spaced {s : Bytes} (numbers : List Int) {c : Cursor} (hIndex : 3 ≤ c.index)
    (hStop : c.stop = c.start + 1) (hDrop : s.drop c.start = spaced numbers) (result : Stat) :
    host.scan s c result = .ok (host.storeAll c.index numbers result) := by
  induction numbers generalizing c result with
  | nil => exact scan_of_le (List.drop_eq_nil_iff.mp hDrop) result
  | cons n numbers ih =>
      rw [spaced_cons] at hDrop
      obtain ⟨hStart, -, hText⟩ := of_drop_eq_cons hDrop
      have hEnd : fieldEnd s c.stop = some (c.start + 1 + (numeral n).length) := by
        rw [hStop]
        exact fieldEnd_plain hText (fun _ => plain_of_mem_numeral) (separated_spaced numbers)
      rw [scan_field hStart hEnd (by omega), store_of_le hIndex, hText,
        ih (Nat.le_succ_of_le hIndex) rfl (drop_length_of_append hText)]
      rfl

theorem storeNumber_of_le {index : Nat} (h : 52 ≤ index) (text : Bytes) (result : Stat) :
    host.storeNumber index text result = result := by
  obtain ⟨n, rfl⟩ := Nat.exists_eq_add_of_le' h
  rfl

/-- Numbers behind the last field are ignored. -/
theorem storeAll_of_le (numbers : List Int) {index : Nat} (h : 52 ≤ index) (result : Stat) :
    host.storeAll index numbers result = result := by
  induction numbers generalizing index result with
  | nil => rfl
  | cons n numbers ih =>
      rw [storeAll, ih (by omega), storeNumber_of_le h]

/-- The numbers of a record are read back. -/
theorem storeAll_numbers (hStrtod : host.ExactStrtod) (v : Stat) (more : List Int)
    (result : Stat) :
    host.storeAll 3 (v.numbers ++ more) result =
      { v with
        valid := result.valid, error := result.error, pid := result.pid, comm := result.comm,
        state := result.state, startTime := result.startTime, ruid := result.ruid } := by
  have hInt : ∀ (n : Int32) (numbers : List Int),
      host.toInt (host.strtod (numeral n.toInt ++ spaced numbers)) = n :=
    fun n numbers => hStrtod n _ (separated_spaced numbers)
  have hStops := stops_spaced
  simp only [Stat.numbers, List.cons_append, List.nil_append, storeAll, storeNumber, hInt,
    (hStops _).strtol_numeral, (hStops _).strtoul_numeral, (hStops _).strtoull_numeral,
    (hStops _).toInt32_strtol_numeral, (hStops _).toUInt32_strtoul_numeral]
  rw [storeAll_of_le more (by omega)]

variable (host) in
/-- The first field goes up to the first space. -/
theorem scan_first {s text rest : Bytes} (hLine : s = text ++ rest) (hNil : text ≠ [])
    (hPlain : ∀ c ∈ text, Plain c) (hRest : Separated rest) (result : Stat) :
    ∃ c : Cursor, c.index = 1 ∧ c.stop = c.start + 1 ∧ s.drop c.start = rest ∧
      host.scan s .first result = host.scan s c { result with pid := (strtol s).toInt32 } := by
  have hDrop : s.drop Cursor.first.start = text ++ rest := hLine
  have hPos : 0 < text.length := List.length_pos_iff.mpr hNil
  have hStart : Cursor.first.start < s.length := by
    rw [hLine, List.length_append]
    exact Nat.lt_add_right _ hPos
  have hEnd : fieldEnd s Cursor.first.stop = some (Cursor.first.stop + text.length) :=
    fieldEnd_plain hDrop hPlain hRest
  refine ⟨.next .first _, rfl, rfl, drop_length_of_append hDrop, ?_⟩
  rw [scan_field hStart hEnd (Nat.lt_add_left _ hPos)]
  congr 1

variable (host) in
/-- The pid is the text up to the first space. -/
theorem scan_pid {s rest : Bytes} {pid : Int32} (hLine : s = numeral pid.toInt ++ rest)
    (hRest : Separated rest) (hStops : Stops rest) (result : Stat) :
    ∃ c : Cursor, c.index = 1 ∧ c.stop = c.start + 1 ∧ s.drop c.start = rest ∧
      host.scan s .first result = host.scan s c { result with pid := pid } := by
  have hNil : numeral pid.toInt ≠ [] := by
    obtain ⟨d, digits, hCons, -⟩ := exists_cons_numeral pid.toInt
    rw [hCons]
    exact List.cons_ne_nil _ _
  have hPid : (strtol s).toInt32 = pid := by rw [hLine, hStops.toInt32_strtol_numeral]
  rw [← hPid]
  exact scan_first host hLine hNil (fun _ => plain_of_mem_numeral) hRest result

variable (host) in
/-- A field behind a space goes up to the next one. -/
theorem scan_text {s text rest : Bytes} {c : Cursor} (hStop : c.stop = c.start + 1)
    (hDrop : s.drop c.start = 0x20 :: (text ++ rest)) (hPlain : ∀ c ∈ text, Plain c)
    (hRest : Separated rest) (result : Stat) :
    ∃ c' : Cursor, c'.index = c.index + 1 ∧ c'.stop = c'.start + 1 ∧ s.drop c'.start = rest ∧
      host.scan s c result =
        host.scan s c'
          (host.store s c.index c.start (c.start + 1 + text.length) result) := by
  obtain ⟨hStart, -, hText⟩ := of_drop_eq_cons hDrop
  have hEnd : fieldEnd s c.stop = some (c.start + 1 + text.length) := by
    rw [hStop]
    exact fieldEnd_plain hText hPlain hRest
  refine ⟨c.next _, rfl, rfl, drop_length_of_append hText, ?_⟩
  rw [scan_field hStart hEnd (by omega)]

variable (host) in
/-- The name is what is between the first parenthesis and the last one. -/
theorem scan_comm {s name rest : Bytes} {c : Cursor} (hIndex : c.index = 1)
    (hStop : c.stop = c.start + 1)
    (hDrop : s.drop c.start = 0x20 :: 0x28 :: (name ++ 0x29 :: rest)) (hName : 0 ∉ name)
    (hZero : 0 ∉ rest) (hClose : 0x29 ∉ rest) (hRest : Separated rest) (result : Stat)
    (hComm : result.comm = []) :
    ∃ c' : Cursor, c'.index = 2 ∧ c'.stop = c'.start + 1 ∧ s.drop c'.start = rest ∧
      host.scan s c result = host.scan s c' { result with comm := name } := by
  obtain ⟨hStart, -, hOpen⟩ := of_drop_eq_cons hDrop
  obtain ⟨-, -, hText⟩ := of_drop_eq_cons hOpen
  have hEnd : fieldEnd s c.stop = some (c.start + name.length + 3) := by
    rw [hStop, fieldEnd_name hOpen hName hZero hClose hRest]
    congr 1
    omega
  have hAfter : s.drop (c.start + name.length + 3) = rest := by
    have := drop_length_of_append (w := 0x20 :: 0x28 :: (name ++ [0x29])) (by simpa using hDrop)
    rw [← this]
    congr 1
    simp
    omega
  refine ⟨c.next _, by simp [Cursor.next, hIndex], rfl, hAfter, ?_⟩
  rw [scan_field hStart hEnd (by omega)]
  congr 1
  rw [hIndex, store]
  split
  case isTrue =>
    have hName : s.extract (c.start + 2) (c.start + name.length + 3 - 1) = name := by
      rw [List.extract_eq_take_drop, show c.start + 2 = c.start + 1 + 1 by rfl, hText]
      rw [show c.start + name.length + 3 - 1 - (c.start + 1 + 1) = name.length by omega]
      exact List.take_left
    rw [hName]
  case isFalse hShort =>
    -- an empty name is not assigned, and the default is empty
    have hNil : name = [] := List.length_eq_zero_iff.mp (by omega)
    rw [hNil, ← hComm]

variable (host) in
theorem scan_state {s rest : Bytes} {state : UInt8} {c : Cursor} (hIndex : c.index = 2)
    (hStop : c.stop = c.start + 1) (hDrop : s.drop c.start = 0x20 :: state :: rest)
    (hState : Plain state) (hRest : Separated rest) (result : Stat) :
    ∃ c' : Cursor, c'.index = 3 ∧ c'.stop = c'.start + 1 ∧ s.drop c'.start = rest ∧
      host.scan s c result = host.scan s c' { result with state := state } := by
  obtain ⟨-, -, hText⟩ := of_drop_eq_cons hDrop
  obtain ⟨-, hByte, -⟩ := of_drop_eq_cons hText
  obtain ⟨c', hIndex', hStop', hDrop', hScan⟩ :=
    @scan_text _ host s [state] rest c hStop hDrop (by simpa using hState) hRest result
  refine ⟨c', by rw [hIndex', hIndex], hStop', hDrop', ?_⟩
  rw [hScan, hIndex, store, hByte]

/-- A line without newlines is what `getline` yields. -/
theorem getline_append {line rest : Bytes} (h : 0x0A ∉ line)
    (hRest : rest = [] ∨ ∃ more, rest = 0x0A :: more) : getline (line ++ rest) = line := by
  have hLine : ∀ c ∈ line, (fun c : UInt8 => decide (c ≠ 0x0A)) c = true := by
    intro c hc
    simp only [ne_eq, decide_eq_true_eq]
    rintro rfl
    exact h hc
  rw [getline, List.takeWhile_append_of_pos hLine]
  rcases hRest with rfl | ⟨more, rfl⟩ <;> simp

theorem plain_of_isLetter {c : UInt8} (h : isLetter c = true) : Plain c ∧ c ≠ 0x0A := by
  refine ⟨⟨?_, ?_, ?_⟩, ?_⟩
  · rintro rfl
    cases h
  · simp only [isLetter, isspace, Bool.or_eq_true, Bool.and_eq_true, decide_eq_true_eq,
      Bool.or_eq_false_iff, decide_eq_false_iff_not, Bool.and_eq_false_iff,
      UInt8.le_iff_toNat_le, ← UInt8.toNat_inj] at h ⊢
    have h41 : (0x41 : UInt8).toNat = 65 := rfl
    have h61 : (0x61 : UInt8).toNat = 97 := rfl
    have h20 : (0x20 : UInt8).toNat = 32 := rfl
    have h0D : (0x0D : UInt8).toNat = 13 := rfl
    omega
  · rintro rfl
    cases h
  · rintro rfl
    cases h

theorem line_eq (v : Stat) (more : List Int) :
    v.line more = numeral v.pid.toInt ++ 0x20 :: 0x28 ::
      (v.comm ++ 0x29 :: 0x20 :: v.state :: spaced (v.numbers ++ more)) := by
  simp [Stat.line, ascii]

/-- Scanning a line as the kernel writes it fills in what it says. -/
theorem scan_line (hStrtod : host.ExactStrtod) {v : Stat} (more : List Int)
    (hName : 0 ∉ v.comm) (hState : Plain v.state) (hClose : v.state ≠ 0x29) (result : Stat)
    (hComm : result.comm = []) :
    host.scan (v.line more) .first result =
      .ok { v with
        valid := result.valid, error := result.error, startTime := result.startTime,
        ruid := result.ruid } := by
  have hSpace : ∀ rest : Bytes, Separated (0x20 :: rest) := by
    rintro rest c ⟨⟩
    decide
  have hZero := foreign_zero.notMem_behind hState.1 (v.numbers ++ more)
  have hCloseMem := foreign_close.notMem_behind hClose (v.numbers ++ more)
  obtain ⟨c₁, hIndex₁, hStop₁, hDrop₁, hScan₁⟩ :=
    scan_pid host (line_eq v more) (hSpace _) (stops_cons (by decide) _) result
  obtain ⟨c₂, hIndex₂, hStop₂, hDrop₂, hScan₂⟩ :=
    scan_comm host hIndex₁ hStop₁ hDrop₁ hName hZero hCloseMem (hSpace _)
      { result with pid := v.pid } hComm
  obtain ⟨c₃, hIndex₃, hStop₃, hDrop₃, hScan₃⟩ :=
    scan_state host hIndex₂ hStop₂ hDrop₂ hState (separated_spaced _)
      { result with pid := v.pid, comm := v.comm }
  rw [hScan₁, hScan₂, hScan₃, scan_spaced _ (Nat.le_of_eq hIndex₃.symm) hStop₃ hDrop₃, hIndex₃,
    storeAll_numbers hStrtod]

/-- A record that the kernel writes is read back. -/
theorem readStat_line (hStrtod : host.ExactStrtod) (pid : Int32) (uid : UInt32) (v : Stat)
    (more : List Int) (rest : Bytes) (hName : ∀ c ∈ v.comm, c ≠ 0 ∧ c ≠ 0x0A)
    (hState : isLetter v.state = true) (hRest : rest = [] ∨ ∃ more, rest = 0x0A :: more)
    (hStat : host.stat64 (path pid) = some uid)
    (hOpen : host.ifstream (path pid ++ ascii "/stat") = some (v.line more ++ rest)) :
    host.readStat pid =
      { v with
        valid := true, error := [], startTime := host.fromRelativeTime v.starttime,
        ruid := uid } := by
  obtain ⟨hPlain, hNewline⟩ := plain_of_isLetter hState
  have hClose : v.state ≠ 0x29 := by
    rintro hEq
    rw [hEq] at hState
    cases hState
  have hLine : 0x0A ∉ v.line more := by
    rw [line_eq, List.mem_append, List.mem_cons, List.mem_cons, List.mem_append, List.mem_cons]
    rintro (hMem | hEq | hEq | hMem | hEq | hMem)
    · exact foreign_newline.notMem_numeral _ hMem
    · cases hEq
    · cases hEq
    · exact (hName _ hMem).2 rfl
    · cases hEq
    · exact foreign_newline.notMem_behind hNewline _ hMem
  have hScan := scan_line hStrtod more (fun hMem => (hName 0 hMem).1 rfl) hPlain hClose
    { pid := pid, startTime := host.garbage, ruid := uid } rfl
  simp only [readStat, hStat, hOpen, getline_append hLine hRest, hScan]

/-- A host with one process, where `strtod` reads integers only. -/
def serving (pid : Int32) (uid : UInt32) (content : Bytes) : Host Int64 where
  stat64 p := if p = path pid then some uid else none
  ifstream p := if p = path pid ++ ascii "/stat" then some content else none
  strtod := strtol
  toInt := Int64.toInt32
  bootTime := 1700000000
  clockRes := 100
  garbage := 0

theorem exactStrtod_serving (pid : Int32) (uid : UInt32) (content : Bytes) :
    (serving pid uid content).ExactStrtod := by
  intro n rest hRest
  refine Stops.toInt32_strtol_numeral ?_ n
  intro c hc
  rw [← Bool.not_eq_true]
  intro hDigit
  have hSpace := hRest c hc
  rw [(not_isspace_of_isDigit hDigit).1] at hSpace
  cases hSpace

/-- A process whose name imitates the end of its record. -/
def imitator : Stat where
  pid := 7
  comm := ascii "a) S 1 2 (b"
  state := 0x52
  ppid := 1
  tpgid := -1
  nice := -20
  starttime := 4200
  rsslim := 18446744073709551615
  exit_signal := 17
  startTime := 0

theorem readStat_line_imitator :
    (serving 7 1000 (imitator.line [0, -3] ++ [0x0A])).readStat 7 =
      { imitator with
        valid := true
        error := []
        startTime := (serving 7 1000 []).fromRelativeTime 4200
        ruid := 1000 } :=
  readStat_line (exactStrtod_serving 7 1000 _) 7 1000 imitator [0, -3] [0x0A]
    (by decide +kernel) (by decide) (.inr ⟨[], rfl⟩) (by simp [serving]) (by simp [serving])

end Host

end Kexplorer.Process

import Kexplorer.Lib.Positioned
import Kexplorer.Lib.Run
import Kexplorer.Util.ExceptionUtil

/-!
# The log file

A server opens its log file when it starts, and the lock on it is what keeps a
second server from running.  The file is truncated when it is opened, which is
before the lock is asked for.

Any number of processes start, log and end here, with their system calls
interleaved in any order.
-/

namespace Kexplorer.Server

open Kexplorer.Lib Kexplorer.Props Kexplorer.Util

/-- `Kes::Log::Level`. -/
inductive Level
  | Debug
  | Info
  | Warning
  | Error
  | Fatal
  | Off
  deriving DecidableEq

/-- The value of the enumerator. -/
def Level.value : Level → Nat
  | .Debug => 0
  | .Info => 1
  | .Warning => 2
  | .Error => 3
  | .Fatal => 4
  | .Off => 5

/-- `strLevel`. -/
def Level.letter : Level → Bytes
  | .Debug => ascii "D"
  | .Info => ascii "I"
  | .Warning => ascii "W"
  | .Error => ascii "E"
  | .Fatal => ascii "!"
  | .Off => ascii "?"

/-! ## Entries -/

/-- `struct timespec`. -/
structure Timespec where
  sec : Int
  nsec : Nat

/-- The seconds and milliseconds that an entry is stamped with. -/
def Timespec.rounded (now : Timespec) : Int × Nat :=
  if 999500000 ≤ now.nsec then (now.sec + 1, 0) else (now.sec, (now.nsec + 500000) / 1000000)

/-- The fields of `struct tm` that are used. -/
structure Tm where
  hour : Nat
  min : Nat
  sec : Nat

/-- `%0*d` of a number that is not negative. -/
def zeroPadded (width n : Nat) : Bytes :=
  List.replicate (width - (Json.decimal n).length) 0x30 ++ Json.decimal n

/-- The prefix of an entry. -/
def stamp (localtime : Int → Tm) (now : Timespec) (level : Level) : Bytes :=
  let tm := localtime now.rounded.1
  ascii "[" ++ zeroPadded 2 tm.hour ++ ascii ":" ++ zeroPadded 2 tm.min ++ ascii ":" ++
    zeroPadded 2 tm.sec ++ ascii "." ++ zeroPadded 3 now.rounded.2 ++ ascii " " ++ level.letter ++
    ascii "] "

/-- The time is rounded to the nearest millisecond. -/
theorem Timespec.rounded_eq (now : Timespec) (h : now.nsec < 1000000000) :
    now.rounded.1 * 1000 + now.rounded.2 =
        (now.sec * 1000000000 + now.nsec + 500000) / 1000000 ∧
      now.rounded.2 < 1000 := by
  unfold Timespec.rounded
  split <;> omega

/-! ## Processes -/

/-- How far a process has got with its logger. -/
inductive Stage
  | absent
  /-- The file is open, and the lock has still to be asked for. -/
  | opened (level : Level)
  /-- The logger is there; its descriptor stands at this offset. -/
  | logging (level : Level) (offset : Nat)
  /-- The constructor has thrown. -/
  | refused (e : Exception)
  | ended

/-- The log file, whom the lock on it belongs to, and what each process does
with it. -/
structure Logfile where
  contents : Bytes
  lockedBy : Option Nat
  stage : Nat → Stage

/-- What a process does next.  The error is that of a call that fails for a
reason of its own, and `taken` is how much of an entry `write` has taken. -/
inductive Event
  | opens (process : Nat) (level : Level) (here : SourceLocation) (error : Option Int32)
  | flock (process : Nat) (here : SourceLocation) (error : Option Int32)
  | writes (process : Nat) (level : Level) (text : Bytes) (now : Timespec) (taken : Nat)
  | closes (process : Nat)

/-- `EWOULDBLOCK`. -/
def EWOULDBLOCK : Int32 := 11

/-- An exception of the constructor with the error of the call that failed. -/
def posixError (here : SourceLocation) (message : Bytes) (error : Int32) : Exception :=
  .new here message [{ id := ExceptionProps.PosixErrorCode.id, value := some (.int error) }]

/-- What `Logger::Logger` makes of the error of `flock`. -/
def lockError (here : SourceLocation) (error : Int32) : Exception :=
  if error = EWOULDBLOCK then .new here (ascii "Server is already running") []
  else posixError here (ascii "Failed to lock the logfile") error

namespace Logfile

variable (localtime : Int → Tm)

/-- No process has started. -/
def new : Logfile := { contents := [], lockedBy := none, stage := fun _ => .absent }

def update (file : Logfile) (process : Nat) (stage : Stage) : Logfile :=
  { file with stage := Function.update file.stage process stage }

/-- What a message of this level adds to the file, as long as `write` takes it
all: `Logger::writev` up to the call. -/
def entry (own level : Level) (text : Bytes) (now : Timespec) : Bytes :=
  if level.value < own.value then [] else stamp localtime now level ++ text ++ ascii "\n"

/-- `Logger::Logger` up to `open`. -/
def opens (file : Logfile) (process : Nat) (level : Level) (here : SourceLocation)
    (error : Option Int32) : Logfile :=
  error.elim { file.update process (.opened level) with contents := [] } fun error =>
    file.update process (.refused (posixError here (ascii "Failed to create the logfile") error))

/-- The rest of `Logger::Logger`. -/
def flock (file : Logfile) (process : Nat) (level : Level) (here : SourceLocation)
    (error : Option Int32) : Logfile :=
  -- The kernel refuses the lock while another descriptor has it.
  (error <|> file.lockedBy.map fun _ => EWOULDBLOCK).elim
    { file.update process (.logging level 0) with lockedBy := some process } fun error =>
      file.update process (.refused (lockError here error))

/-- `Logger::writev`. -/
def writes (file : Logfile) (process : Nat) (own : Level) (offset : Nat) (bytes : Bytes) :
    Logfile :=
  { file.update process (.logging own (offset + bytes.length)) with
    contents := writeAt 0 file.contents offset bytes }

/-- `Logger::~Logger`, or the end of the process in its place. -/
def closes (file : Logfile) (process : Nat) : Logfile :=
  { file.update process .ended with
    lockedBy := if file.lockedBy = some process then none else file.lockedBy }

/-- The step of an event, if the process can take it now. -/
def step (file : Logfile) : Event → Except Unit Logfile
  | .opens process level here error =>
      match file.stage process with
      | .absent => .ok (file.opens process level here error)
      | _ => .error ()
  | .flock process here error =>
      match file.stage process with
      | .opened level => .ok (file.flock process level here error)
      | _ => .error ()
  | .writes process level text now taken =>
      match file.stage process with
      | .logging own offset =>
          .ok (file.writes process own offset ((entry localtime own level text now).take taken))
      | _ => .error ()
  | .closes process =>
      match file.stage process with
      | .opened _ => .ok (file.closes process)
      | .logging _ _ => .ok (file.closes process)
      | _ => .error ()

/-! ## Steps -/

@[simp] theorem update_self (file : Logfile) (process : Nat) (stage : Stage) :
    (file.update process stage).stage process = stage :=
  Function.update_self ..

@[simp] theorem update_of_ne (file : Logfile) {process other : Nat} (h : other ≠ process)
    (stage : Stage) : (file.update process stage).stage other = file.stage other :=
  Function.update_of_ne h ..

@[simp] theorem update_lockedBy (file : Logfile) (process : Nat) (stage : Stage) :
    (file.update process stage).lockedBy = file.lockedBy :=
  rfl

@[simp] theorem update_contents (file : Logfile) (process : Nat) (stage : Stage) :
    (file.update process stage).contents = file.contents :=
  rfl

variable {localtime : Int → Tm} {file file' : Logfile}

/-- Processes at different stages are different. -/
theorem ne_of_stage {process other : Nat} {stage stage' : Stage} (h : file.stage process = stage)
    (h' : file.stage other = stage') (hDiffer : stage ≠ stage') : process ≠ other := by
  rintro rfl
  exact hDiffer (h.symm.trans h')

theorem step_opens_iff {process : Nat} {level : Level} {here : SourceLocation}
    {error : Option Int32} :
    file.step localtime (.opens process level here error) = .ok file' ↔
      file.stage process = .absent ∧ file' = file.opens process level here error := by
  rw [step]
  cases file.stage process <;> simp [eq_comm]

theorem step_flock_iff {process : Nat} {here : SourceLocation} {error : Option Int32} :
    file.step localtime (.flock process here error) = .ok file' ↔
      ∃ level, file.stage process = .opened level ∧
        file' = file.flock process level here error := by
  rw [step]
  cases file.stage process <;> simp [eq_comm]

theorem step_writes_iff {process : Nat} {level : Level} {text : Bytes} {now : Timespec}
    {taken : Nat} :
    file.step localtime (.writes process level text now taken) = .ok file' ↔
      ∃ own offset, file.stage process = .logging own offset ∧
        file' = file.writes process own offset
          ((entry localtime own level text now).take taken) := by
  rw [step]
  cases file.stage process <;> simp [eq_comm]

theorem step_closes_iff {process : Nat} :
    file.step localtime (.closes process) = .ok file' ↔
      ((∃ level, file.stage process = .opened level) ∨
        ∃ level offset, file.stage process = .logging level offset) ∧
        file' = file.closes process := by
  rw [step]
  cases file.stage process <;> simp [eq_comm]

/-! ## Who logs -/

/-- The lock belongs to the process whose logger is there. -/
def Guarded (file : Logfile) : Prop :=
  ∀ process level offset, file.stage process = .logging level offset →
    file.lockedBy = some process

theorem guarded_new : new.Guarded := by
  intro process level offset h
  cases h

/-- A process that does not get to a logger leaves the others guarded. -/
theorem Guarded.update (h : file.Guarded) (process : Nat) {stage : Stage}
    (hStage : ∀ level offset, stage ≠ .logging level offset) :
    (file.update process stage).Guarded := by
  intro other level offset hOther
  by_cases hSame : other = process
  · subst hSame
    rw [update_self] at hOther
    exact absurd hOther (hStage level offset)
  · rw [update_of_ne file hSame] at hOther
    exact h other level offset hOther

theorem Guarded.step {e : Event} (h : file.Guarded) (hStep : file.step localtime e = .ok file') :
    file'.Guarded := by
  cases e with
  | opens process level here error =>
      obtain ⟨-, rfl⟩ := step_opens_iff.mp hStep
      cases error with
      | none => exact h.update process (by simp)
      | some error => exact h.update process (by simp)
  | flock process here error =>
      obtain ⟨level, hStage, rfl⟩ := step_flock_iff.mp hStep
      rw [flock]
      cases hError : (error <|> file.lockedBy.map fun _ => EWOULDBLOCK) with
      | some error => exact h.update process (by simp)
      | none =>
          -- The lock was free, so that no other logger was there.
          intro other own offset hOther
          by_cases hSame : other = process
          · rw [hSame]
            rfl
          · have hLocked : file.lockedBy = some other :=
              h other own offset ((update_of_ne file hSame _).symm.trans hOther)
            simp [hLocked] at hError
  | writes process level text now taken =>
      obtain ⟨own, offset, hStage, rfl⟩ := step_writes_iff.mp hStep
      intro other level' offset' hOther
      by_cases hSame : other = process
      · rw [hSame]
        exact h process own offset hStage
      · exact h other level' offset' ((update_of_ne file hSame _).symm.trans hOther)
  | closes process =>
      obtain ⟨-, rfl⟩ := step_closes_iff.mp hStep
      intro other level offset hOther
      by_cases hSame : other = process
      · subst hSame
        simp [closes] at hOther
      · have hLocked : file.lockedBy = some other :=
          h other level offset ((update_of_ne file hSame _).symm.trans hOther)
        simp [closes, hLocked, hSame]

theorem Guarded.run {es : List Event} (h : file.Guarded)
    (hRun : Lib.run (Logfile.step localtime) file es = .ok file') : file'.Guarded :=
  run_keeps (fun hInv hStep => hInv.step hStep) h hRun

/-- At most one process has a logger, in whatever order all of them make their calls.  One that
asks for the lock meanwhile is told that the server is running. -/
theorem one_logger {es : List Event} (hRun : Lib.run (Logfile.step localtime) new es = .ok file)
    {process : Nat} {level : Level} {offset : Nat}
    (h : file.stage process = .logging level offset) :
    (∀ other level' offset', file.stage other = .logging level' offset' → other = process) ∧
      ∀ other here file', file.step localtime (.flock other here none) = .ok file' →
        file'.stage other = .refused (.new here (ascii "Server is already running") []) := by
  have hGuarded : file.Guarded := guarded_new.run hRun
  have hLocked : file.lockedBy = some process := hGuarded process level offset h
  constructor
  · intro other level' offset' hOther
    exact Option.some.inj ((hGuarded other level' offset' hOther).symm.trans hLocked)
  · intro other here file' hStep
    obtain ⟨opened, -, rfl⟩ := step_flock_iff.mp hStep
    simp [flock, hLocked, lockError]

/-- Where the constructor makes its exceptions. -/
def here : SourceLocation := { file := literal "logger.cxx", line := 27, stack := none }

def noon : Int → Tm := fun _ => { hour := 12, min := 0, sec := 0 }

/-- A server that has started and logged. -/
def running : List Event :=
  [ .opens 0 .Info here none, .flock 0 here none, .writes 0 .Info (ascii "Binding") ⟨0, 0⟩ 64 ]

/-- A second server opens the file, and is refused the lock. -/
theorem one_logger_refused :
    ∃ file file', Lib.run (step noon) new (running ++ [.opens 1 .Info here none]) = .ok file ∧
      (∀ other level offset, file.stage other = .logging level offset → other = 0) ∧
      file.step noon (.flock 1 here none) = .ok file' ∧
      file'.stage 1 = .refused (.new here (ascii "Server is already running") []) := by
  have hRun : Lib.run (step noon) new (running ++ [.opens 1 .Info here none]) = .ok _ := rfl
  obtain ⟨hOnly, hRefused⟩ := @one_logger noon _ _ hRun 0 _ _ rfl
  exact ⟨_, _, rfl, hOnly, rfl, hRefused 1 here _ rfl⟩

/-! ## What the file holds -/

end Logfile

namespace Event

/-- The event truncates the file. -/
def truncates : Event → Bool
  | .opens _ _ _ error => error.isNone
  | _ => false

/-- What the event adds to the log of a process with this level. -/
def bytes (localtime : Int → Tm) (process : Nat) (own : Level) : Event → Bytes
  | .writes other level text now taken =>
      if other = process then (Logfile.entry localtime own level text now).take taken else []
  | _ => []

end Event

namespace Logfile

variable {localtime : Int → Tm} {file file' : Logfile}

/-- What a process with a logger and this level logs in a run. -/
def logged (localtime : Int → Tm) (process : Nat) (own : Level) (es : List Event) : Bytes :=
  es.flatMap (Event.bytes localtime process own)

/-- A step that does not end the process with the logger: only its own entries and truncations
change the file. -/
theorem step_logging {process : Nat} {own : Level} {offset : Nat} {e : Event}
    (hGuarded : file.Guarded) (h : file.stage process = .logging own offset)
    (hStep : file.step localtime e = .ok file') (hStays : e ≠ .closes process) :
    file'.stage process = .logging own (offset + (e.bytes localtime process own).length) ∧
      file'.contents =
        if e.truncates then []
        else writeAt 0 file.contents offset (e.bytes localtime process own) := by
  cases e with
  | opens other level here error =>
      obtain ⟨hAbsent, rfl⟩ := step_opens_iff.mp hStep
      have hSame : process ≠ other := ne_of_stage h hAbsent (by simp)
      cases error with
      | none => simp [opens, Event.bytes, Event.truncates, hSame, h, Logfile.update]
      | some error => simp [opens, Event.bytes, Event.truncates, hSame, h]
  | flock other here error =>
      obtain ⟨level, hOpened, rfl⟩ := step_flock_iff.mp hStep
      have hSame : process ≠ other := ne_of_stage h hOpened (by simp)
      rw [flock]
      cases (error <|> file.lockedBy.map fun _ => EWOULDBLOCK) with
      | none => simp [Event.bytes, Event.truncates, hSame, h, Logfile.update]
      | some error => simp [Event.bytes, Event.truncates, hSame, h]
  | writes other level text now taken =>
      obtain ⟨own', offset', hLogging, rfl⟩ := step_writes_iff.mp hStep
      have hSame : process = other := Option.some.inj
        ((hGuarded process own offset h).symm.trans (hGuarded other own' offset' hLogging))
      subst hSame
      obtain ⟨rfl, rfl⟩ := Stage.logging.inj (h.symm.trans hLogging)
      simp [writes, Event.bytes, Event.truncates, Logfile.update]
  | closes other =>
      obtain ⟨-, rfl⟩ := step_closes_iff.mp hStep
      have hSame : process ≠ other := by
        rintro rfl
        exact hStays rfl
      simp [closes, Event.bytes, Event.truncates, hSame, h, Logfile.update]

/-- Through a run that does not end it, a process keeps its logger, and the descriptor moves on by
what the process logs. -/
theorem stage_of_run {process : Nat} {own : Level} {es : List Event} : ∀ {file : Logfile}
    {offset : Nat}, file.Guarded → file.stage process = .logging own offset →
      Lib.run (Logfile.step localtime) file es = .ok file' → .closes process ∉ es →
      file'.stage process =
        .logging own (offset + (logged localtime process own es).length) := by
  induction es with
  | nil =>
      intro file offset _ h hRun _
      cases hRun
      exact h
  | cons e es ih =>
      intro file offset hGuarded h hRun hStays
      obtain ⟨next, hStep, hRest⟩ := run_cons_eq_ok_iff.mp hRun
      rw [List.mem_cons, not_or] at hStays
      obtain ⟨hNext, -⟩ := step_logging hGuarded h hStep (Ne.symm hStays.1)
      rw [ih (hGuarded.step hStep) hNext hRest hStays.2, logged, logged, List.flatMap_cons,
        List.length_append, Nat.add_assoc]

/-- As long as nobody starts, the file is written where the descriptor stands. -/
theorem contents_of_run {process : Nat} {own : Level} {es : List Event} : ∀ {file : Logfile}
    {offset : Nat}, file.Guarded → file.stage process = .logging own offset →
      Lib.run (Logfile.step localtime) file es = .ok file' → .closes process ∉ es →
      (∀ e ∈ es, e.truncates = false) →
      file'.contents = writeAt 0 file.contents offset (logged localtime process own es) := by
  induction es with
  | nil =>
      intro file offset _ _ hRun _ _
      cases hRun
      rfl
  | cons e es ih =>
      intro file offset hGuarded h hRun hStays hKept
      obtain ⟨next, hStep, hRest⟩ := run_cons_eq_ok_iff.mp hRun
      rw [List.mem_cons, not_or] at hStays
      obtain ⟨hNext, hContents⟩ := step_logging hGuarded h hStep (Ne.symm hStays.1)
      rw [hKept e List.mem_cons_self, if_neg Bool.false_ne_true] at hContents
      rw [ih (hGuarded.step hStep) hNext hRest hStays.2
          fun e he => hKept e (List.mem_cons_of_mem _ he),
        hContents, writeAt_append, logged, logged, List.flatMap_cons]

/-- A server that starts while nobody else logs has a log of its own entries only. -/
theorem contents_of_server {process : Nat} {own : Level} {here here' : SourceLocation}
    {es : List Event} (hGuarded : file.Guarded)
    (hRun : Lib.run (Logfile.step localtime) file
      (.opens process own here none :: .flock process here' none :: es) = .ok file')
    (hFree : file.lockedBy = none) (hStays : .closes process ∉ es)
    (hAlone : ∀ e ∈ es, e.truncates = false) :
    file'.contents = logged localtime process own es := by
  obtain ⟨opened, hOpens, hRun⟩ := run_cons_eq_ok_iff.mp hRun
  obtain ⟨locked, hFlock, hRun⟩ := run_cons_eq_ok_iff.mp hRun
  have hLocked : locked.Guarded := (hGuarded.step hOpens).step hFlock
  obtain ⟨-, rfl⟩ := step_opens_iff.mp hOpens
  obtain ⟨level, hStage, rfl⟩ := step_flock_iff.mp hFlock
  obtain rfl : own = level := by simpa [opens, Logfile.update] using hStage
  have hGranted : (file.opens process own here none).flock process own here' none =
      { (file.opens process own here none).update process (.logging own 0) with
        lockedBy := some process } := by
    simp [flock, opens, hFree]
  rw [hGranted] at hLocked hRun
  rw [contents_of_run hLocked (update_self ..) hRun hStays hAlone]
  exact writeAt_length 0 [] _

/-- What a start of the server leaves of a log that another one is writing: however much that one
has logged before, zeros stand for it, and only what it logs after the last start can be read. -/
theorem contents_after_start {before es rest : List Event} {start : Event} {process : Nat}
    {own : Level} {offset : Nat} (hBefore : Lib.run (Logfile.step localtime) new before = .ok file)
    (h : file.stage process = .logging own offset)
    (hRun : Lib.run (Logfile.step localtime) file (es ++ start :: rest) = .ok file')
    (hStays : .closes process ∉ es ++ start :: rest) (hStart : start.truncates = true)
    (hLast : ∀ e ∈ rest, e.truncates = false) :
    file'.stage process = .logging own
        (offset + (logged localtime process own es).length +
          (logged localtime process own rest).length) ∧
      file'.contents =
        if logged localtime process own rest = [] then []
        else List.replicate (offset + (logged localtime process own es).length) 0 ++
          logged localtime process own rest := by
  obtain ⟨started, hEs, hRest⟩ := run_append_eq_ok_iff.mp hRun
  obtain ⟨next, hStep, hRest⟩ := run_cons_eq_ok_iff.mp hRest
  rw [List.mem_append, List.mem_cons, not_or, not_or] at hStays
  obtain ⟨hStaysEs, hStaysStart, hStaysRest⟩ := hStays
  have hGuarded : started.Guarded := (guarded_new.run hBefore).run hEs
  have hStarted := stage_of_run (guarded_new.run hBefore) h hEs hStaysEs
  -- A start logs nothing itself, and the descriptor stays where it is.
  have hSilent : start.bytes localtime process own = [] := by
    cases start <;> first | rfl | cases hStart
  obtain ⟨hNext, hEmpty⟩ := step_logging hGuarded hStarted hStep (Ne.symm hStaysStart)
  rw [hSilent, List.length_nil, Nat.add_zero] at hNext
  rw [hStart, if_pos rfl] at hEmpty
  have hGuardedNext : next.Guarded := hGuarded.step hStep
  refine ⟨stage_of_run hGuardedNext hNext hRest hStaysRest, ?_⟩
  rw [contents_of_run hGuardedNext hNext hRest hStaysRest hLast, hEmpty]
  split
  · rename_i hNothing
    rw [hNothing, writeAt_nil]
  · rename_i hSomething
    rw [writeAt_empty 0 _ hSomething]

/-- A second server tries to start, and the first one goes on. -/
def attempted : List Event :=
  [ .writes 0 .Debug (ascii "not in the log") ⟨0, 0⟩ 64, .opens 1 .Info here none,
    .flock 1 here none, .writes 0 .Warning (ascii "Exiting") ⟨0, 0⟩ 64 ]

theorem contents_after_start_attempted :
    ∃ started file, Lib.run (step noon) new running = .ok started ∧
      Lib.run (step noon) started attempted = .ok file ∧
      file.contents = List.replicate 25 0 ++ ascii "[12:00:00.000 W] Exiting\n" := by
  refine ⟨_, _, rfl, rfl, ?_⟩
  have hBefore : Lib.run (step noon) new running = .ok _ := rfl
  have hStays : .closes 0 ∉ attempted := by simp [attempted]
  have hLast : ∀ e ∈ attempted.drop 2, e.truncates = false := by
    simp [attempted, Event.truncates]
  exact (@contents_after_start noon _ _ running (attempted.take 1) (attempted.drop 2)
    (.opens 1 .Info here none) 0 .Info 25 hBefore rfl rfl hStays rfl hLast).2.trans (by decide)

end Logfile

end Kexplorer.Server

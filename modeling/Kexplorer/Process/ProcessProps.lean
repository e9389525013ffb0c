import Kexplorer.Props.Registry
import Kexplorer.Util.RequestUtil

/-!
# The properties the library knows

The declarations of processes and exceptions, and the registry that
`Kes::initialize` fills.  `newcomer` and `ruid` are declared and not registered.
-/

namespace Kexplorer

open Kexplorer.Props

namespace ExceptionProps

def DecodedError : PropertyInfo := .declare .string "decoded_error"

def PosixErrorCode : PropertyInfo := .declare .int "posix_error_code"

/-- The properties of `ExceptionProps::Private::registerAll`. -/
def all : List PropertyInfo := [DecodedError, PosixErrorCode]

end ExceptionProps

namespace ProcessProps

def Process : PropertyInfo := .declare .table "process.process"

def DeletedProcess : PropertyInfo := .declare .int "process.deleted_process"

/-- The base type is the declaration `Process`, which is no type of a value. -/
def ProcessList : PropertyInfo :=
  .declare .array "process.process_list" (.other (ascii "Kes::ProcessProps::Process"))

def DeletedProcessList : PropertyInfo := .declare .array "process.deleted_process_list" .int

def Error : PropertyInfo := .declare .string "process.error"

def Newcomer : PropertyInfo := .declare .bool "process.newcomer"

def Pid : PropertyInfo := .declare .int "process.pid"

def PPid : PropertyInfo := .declare .int "process.ppid"

def PGrp : PropertyInfo := .declare .int "process.pgrp"

def Tpgid : PropertyInfo := .declare .int "process.tpgid"

def Session : PropertyInfo := .declare .int "process.session"

def Ruid : PropertyInfo := .declare .int "process.ruid"

def StatComm : PropertyInfo := .declare .string "process.stat_comm"

def Comm : PropertyInfo := .declare .string "process.comm"

def CmdLine : PropertyInfo := .declare .string "process.cmdline"

def Exe : PropertyInfo := .declare .string "process.exe"

/-- The properties of `ProcessProps::Private::registerAll`. -/
def all : List PropertyInfo :=
  [Process, DeletedProcess, ProcessList, DeletedProcessList, Error, Pid, PPid, PGrp, Tpgid, Session,
    StatComm, Comm, CmdLine, Exe]

end ProcessProps

/-- Several calls of `registerProperty`, up to the first that throws. -/
def registerAll : List PropertyInfo → Registry → Except Bytes Unit × Registry
  | [], reg => (.ok (), reg)
  | pi :: pis, reg =>
      match reg.registerProperty pi with
      | (.ok (), reg) => registerAll pis reg
      | (.error what, reg) => (.error what, reg)

/-- The properties that `Kes::initialize` registers. -/
def knownProps : List PropertyInfo :=
  ExceptionProps.all ++ [Util.Request.Id, Util.Request.Command] ++
    [Util.Response.Status, Util.Response.Reason, Util.Response.Version] ++ ProcessProps.all

/-- `Kes::initialize` of an empty registry. -/
def kesInitialize : Except Bytes Unit × Registry := registerAll knownProps .empty

/-- The registry that `Kes::initialize` leaves. -/
def knownRegistry : Registry := kesInitialize.2

/-! ## What is registered -/

/-- After registrations that did not throw, all their properties are known, and so is what was
known before. -/
theorem registerAll_ok {pis : List PropertyInfo} : ∀ {reg reg' : Registry},
    registerAll pis reg = (.ok (), reg') →
      (∀ pi ∈ pis, reg'.Registered pi) ∧ ∀ other, reg.Registered other → reg'.Registered other := by
  induction pis with
  | nil =>
      intro reg reg' h
      obtain ⟨-, rfl⟩ := Prod.mk.inj h
      exact ⟨nofun, fun _ h => h⟩
  | cons pi pis ih =>
      intro reg reg' h
      unfold registerAll at h
      split at h
      · rename_i reg'' hHead
        obtain ⟨hNew, hOld⟩ := Registry.registerProperty_ok hHead
        obtain ⟨hAll, hKept⟩ := ih h
        refine ⟨fun other hOther => ?_, fun other hOther => hKept other (hOld other hOther)⟩
        rcases List.mem_cons.mp hOther with rfl | hOther
        · exact hKept _ hNew
        · exact hAll other hOther
      · cases h

/-- No two properties of the library share an id or a name, and two declarations are in neither
map. -/
private theorem kesInitialize_checks :
    kesInitialize.1 = .ok () ∧
      ∀ pi ∈ [ProcessProps.Newcomer, ProcessProps.Ruid],
        knownRegistry.lookupName pi.idstr = none ∧ knownRegistry.lookupId pi.id = none := by
  decide +kernel

/-- The library initializes without an exception. -/
theorem kesInitialize_ok : kesInitialize.1 = .ok () := kesInitialize_checks.1

theorem registered_of_mem {pi : PropertyInfo} (h : pi ∈ knownProps) :
    knownRegistry.Registered pi := by
  have hAll : kesInitialize = (.ok (), knownRegistry) := by
    rw [knownRegistry, ← kesInitialize_ok]
  unfold kesInitialize at hAll
  exact (registerAll_ok hAll).1 pi h

theorem declares_known {pi : PropertyInfo} (h : pi ∈ knownProps) :
    knownRegistry.lookupName pi.idstr = some pi :=
  (registered_of_mem h).2

theorem newcomer_unknown :
    knownRegistry.lookupName ProcessProps.Newcomer.idstr = none ∧
      knownRegistry.lookupId ProcessProps.Newcomer.id = none :=
  kesInitialize_checks.2 _ List.mem_cons_self

theorem ruid_unknown :
    knownRegistry.lookupName ProcessProps.Ruid.idstr = none ∧
      knownRegistry.lookupId ProcessProps.Ruid.id = none :=
  kesInitialize_checks.2 _ (List.mem_cons_of_mem _ List.mem_cons_self)

end Kexplorer

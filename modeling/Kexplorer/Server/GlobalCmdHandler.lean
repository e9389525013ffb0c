import Kexplorer.Server.RequestProcessor

/-!
# The commands of the server itself

`stop` and `version`.  The state of the handler is whether the exit condition was
set; the text of the version is built from a generated header and is a field.
-/

namespace Kexplorer.Server

open Kexplorer.Props Kexplorer.Util

structure GlobalCmdHandler where
  version : Bytes

/-- Several calls of `addToTable`; on a table none of them asserts. -/
def addAll (fields : List (PropertyInfo × Any)) (response : PropertyBag) : PropertyBag :=
  fields.foldl (fun response field => (addToTable field.1 field.2 response).getD response) response

/-- Every call adds to the same table. -/
theorem addAll_table (fields : List (PropertyInfo × Any)) :
    ∀ {name : Bytes} {members : List (Bytes × PropertyBag)}, ∃ members',
      addAll fields (.table name members) = .table name members' := by
  induction fields with
  | nil => exact ⟨_, rfl⟩
  | cons field fields ih => exact ih

namespace GlobalCmdHandler

/-- `GlobalCmdHandler::process`. -/
def process (h : GlobalCmdHandler) (_sessionId : UInt32) (key : CString) (id : Int32)
    (_request response : PropertyBag) (exit : Bool) : Except Bytes Bool × PropertyBag × Bool :=
  if key = literal "stop" then
    (.ok true,
      addAll [(Request.Id, .int id), (Response.Status, .string Response.Success.bytes)] response,
      true)
  else if key = literal "version" then
    (.ok true,
      addAll [(Request.Id, .int id), (Response.Status, .string Response.Success.bytes),
        (Response.Version, .string h.version)] response,
      exit)
  else (.ok false, response, exit)

/-- A response that is a table stays one. -/
theorem keepsTable (h : GlobalCmdHandler) (sessionId : UInt32) (key : CString) (id : Int32)
    (request : PropertyBag) (members : List (Bytes × PropertyBag)) (exit : Bool) :
    ∃ members', (h.process sessionId key id request (.table [] members) exit).2.1 =
      .table [] members' := by
  unfold process
  split
  · exact addAll_table _
  · split
    · exact addAll_table _
    · exact ⟨members, rfl⟩

/-- The handler that the processor calls. -/
def handler (h : GlobalCmdHandler) : IRequestHandler Bool := ⟨h.process, h.keepsTable⟩

end GlobalCmdHandler

end Kexplorer.Server

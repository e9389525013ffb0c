import Kexplorer.Json.Writer
import Kexplorer.Props.PropertyBag

/-!
# Requests and responses

The properties every request and response carries, the texts that
`Util::Request::simple` and `Util::Response::fail` write without a property
bag, and the two helpers that the request handlers build their responses with.
-/

namespace Kexplorer.Util

open Kexplorer.Json Kexplorer.Props

namespace Request

def Id : PropertyInfo := .declare .int "request.id"

def Command : PropertyInfo := .declare .string "request.request"

/-- `Util::Request::simple`. -/
def simple (id : Int32) (command : CString) : Option Bytes := do
  let writer ← Writer.new.startObject
  let writer ← writer.key Id.idstr.bytes
  let writer ← writer.integer (.ofInt32 id)
  let writer ← writer.key Command.idstr.bytes
  let writer ← writer.string command.bytes
  let writer ← writer.endObject
  return writer.getString

end Request

namespace Response

def Status : PropertyInfo := .declare .string "response.status"

def Reason : PropertyInfo := .declare .string "response.reason"

def Version : PropertyInfo := .declare .string "response.srv_version"

def Success : CString := literal "success"

def Fail : CString := literal "fail"

/-- `Util::Response::fail`. -/
def fail (id : Int32) (reason : CString) : Option Bytes := do
  let writer ← Writer.new.startObject
  let writer ← writer.key Request.Id.idstr.bytes
  let writer ← writer.integer (.ofInt32 id)
  let writer ← writer.key Status.idstr.bytes
  let writer ← writer.string Fail.bytes
  let writer ← writer.key Reason.idstr.bytes
  let writer ← writer.string reason.bytes
  let writer ← writer.endObject
  return writer.getString

end Response

/-! ## Building a bag -/

/-- `addToTable` of a value; `none` is a failed assertion. -/
def addToTable (info : PropertyInfo) (val : Any) (table : PropertyBag) : Option PropertyBag :=
  match table with
  | .table name members =>
      some (.table name (UnorderedMap.insert members info.idstr.bytes
        (.property info.idstr.bytes { id := info.id, value := some val })))
  | _ => none

/-- `addToTable` of a bag. -/
def addBagToTable (info : PropertyInfo) (val table : PropertyBag) : Option PropertyBag :=
  match table with
  | .table name members => some (.table name (UnorderedMap.insert members info.idstr.bytes val))
  | _ => none

/-- `addToArray` of a value. -/
def addToArray (info : PropertyInfo) (val : Any) (array : PropertyBag) : Option PropertyBag :=
  match array with
  | .array name items =>
      some (.array name (items ++ [.property [] { id := info.id, value := some val }]))
  | _ => none

/-- `addToArray` of a bag. -/
def addBagToArray (val array : PropertyBag) : Option PropertyBag :=
  match array with
  | .array name items => some (.array name (items ++ [val]))
  | _ => none

/-! ## The texts -/

/-- Writing an object member by member is writing the object. -/
theorem getString_accept (members : List (Bytes × Value Empty)) :
    (do let writer ← Writer.new.startObject
        let writer ← Value.acceptMembers members writer
        let writer ← writer.endObject
        return writer.getString : Option Bytes) = some (Value.render (.object members)) := by
  have hAccept := Value.accept_new (.object members)
  rw [Value.accept] at hAccept
  simp only [Option.bind_eq_bind, Option.pure_def] at hAccept ⊢
  rw [← Option.bind_assoc, ← Option.bind_assoc, Option.bind_assoc Writer.new.startObject]
  rw [hAccept]
  exact congrArg some (Value.getString_render _)

theorem Request.simple_eq (id : Int32) (command : CString) :
    Request.simple id command = some (Value.render (.object
      [(Request.Id.idstr.bytes, .integer (.ofInt32 id)),
        (Request.Command.idstr.bytes, .string command.bytes)])) := by
  rw [← getString_accept]
  simp [Request.simple, Value.acceptMembers, Value.accept, Option.bind_assoc]

theorem Response.fail_eq (id : Int32) (reason : CString) :
    Response.fail id reason = some (Value.render (.object
      [(Request.Id.idstr.bytes, .integer (.ofInt32 id)),
        (Response.Status.idstr.bytes, .string Response.Fail.bytes),
        (Response.Reason.idstr.bytes, .string reason.bytes)])) := by
  rw [← getString_accept]
  simp [Response.fail, Value.acceptMembers, Value.accept, Option.bind_assoc]

end Kexplorer.Util

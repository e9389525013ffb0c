import Kexplorer.Process.ListProcesses

/-!
# The process manager

`ProcessManager` keeps a session for every client.  A session starts once however
often it is announced, and ends in the same way, because the request processor
announces it for every command.

A call fails with its assertion if the session is not there, and it runs into
undefined behaviour if the diff does.
-/

namespace Kexplorer.Process

open Kexplorer.Props

/-- How a call fails. -/
inductive Fault
  | assertion
  | undefined
  deriving DecidableEq

/-- `m_sessions`. -/
structure ProcessManager where
  sessions : List (UInt32 × Session) := []

namespace ProcessManager

/-- `ProcessManager::startSession`. -/
def startSession (manager : ProcessManager) (id : UInt32) : ProcessManager :=
  match UnorderedMap.find manager.sessions id with
  | some _ => manager
  | none => { sessions := UnorderedMap.insert manager.sessions id (.new id) }

/-- `ProcessManager::endSession`. -/
def endSession (manager : ProcessManager) (id : UInt32) : ProcessManager :=
  match UnorderedMap.find manager.sessions id with
  | some _ => { sessions := UnorderedMap.erase manager.sessions id }
  | none => manager

/-- `ProcessManager::process` of a session, by the command: the session and the response
afterwards, or nothing if there is no such command. -/
def processSession (session : Session) (key : CString) (id : Int32) (proc : ProcView)
    (layout : Layout (Int32 × ProcessInfo)) (response : PropertyBag) :
    Option (Option (Session × PropertyBag)) :=
  if key = literal "list_processes" then
    (listProcesses true proc layout session id response).map some
  else if key = literal "diff_processes" then
    (listProcesses false proc layout session id response).map some
  else some none

/-- `ProcessManager::process`; the request itself is not looked at. -/
def process (manager : ProcessManager) (sessionId : UInt32) (key : CString) (id : Int32)
    (proc : ProcView) (layout : Layout (Int32 × ProcessInfo)) (response : PropertyBag) :
    Except Fault (Bool × PropertyBag × ProcessManager) :=
  match UnorderedMap.find manager.sessions sessionId with
  | none => .error .assertion
  | some session =>
      match processSession session key id proc layout response with
      | none => .error .undefined
      | some none => .ok (false, response, manager)
      | some (some (session, response)) =>
          .ok (true, response, { sessions := swapIn manager.sessions sessionId session })

/-! ## The entries -/

theorem find_startSession (manager : ProcessManager) (id key : UInt32) :
    UnorderedMap.find (manager.startSession id).sessions key =
      if key = id then some ((UnorderedMap.find manager.sessions id).getD (.new id))
      else UnorderedMap.find manager.sessions key := by
  unfold startSession
  cases hFind : UnorderedMap.find manager.sessions id with
  | none =>
      dsimp only
      rw [UnorderedMap.find_insert]
      by_cases hKey : key = id
      · subst hKey
        rw [hFind, if_pos rfl, if_pos rfl]
        rfl
      · rw [if_neg hKey, if_neg hKey, Option.or_none]
  | some session =>
      dsimp only
      by_cases hKey : key = id
      · subst hKey
        rw [hFind, if_pos rfl]
        rfl
      · rw [if_neg hKey]

theorem find_endSession (manager : ProcessManager) (id key : UInt32) :
    UnorderedMap.find (manager.endSession id).sessions key =
      if key = id then none else UnorderedMap.find manager.sessions key := by
  unfold endSession
  cases hFind : UnorderedMap.find manager.sessions id with
  | none =>
      dsimp only
      by_cases hKey : key = id
      · subst hKey
        rw [hFind, if_pos rfl]
      · rw [if_neg hKey]
  | some session => exact UnorderedMap.find_erase manager.sessions id key

/-- Starting a session again does nothing. -/
theorem startSession_startSession (manager : ProcessManager) (id : UInt32) :
    (manager.startSession id).startSession id = manager.startSession id := by
  have hFind := find_startSession manager id id
  rw [if_pos rfl] at hFind
  generalize manager.startSession id = started at hFind ⊢
  rw [startSession, hFind]

/-- Ending it again does nothing. -/
theorem endSession_endSession (manager : ProcessManager) (id : UInt32) :
    (manager.endSession id).endSession id = manager.endSession id := by
  have hFind := find_endSession manager id id
  rw [if_pos rfl] at hFind
  generalize manager.endSession id = ended at hFind ⊢
  rw [endSession, hFind]

theorem find_swapIn {κ α : Type} [DecidableEq κ] (members : List (κ × α)) (k key : κ) (value : α) :
    UnorderedMap.find (swapIn members k value) key =
      if key = k then (UnorderedMap.find members k).map (fun _ => value)
      else UnorderedMap.find members key := by
  unfold swapIn
  induction members with
  | nil => simp
  | cons m members ih =>
      obtain ⟨k', a⟩ := m
      rw [List.map_cons]
      by_cases hSwap : k' = k
      · subst hSwap
        rw [if_pos rfl, UnorderedMap.find_cons, UnorderedMap.find_cons, UnorderedMap.find_cons, ih]
        split <;> simp
      · rw [if_neg hSwap, UnorderedMap.find_cons, UnorderedMap.find_cons, UnorderedMap.find_cons, ih,
          if_neg (Ne.symm hSwap)]
        by_cases hKey : key = k'
        · subst hKey
          rw [if_pos rfl, if_neg hSwap, if_pos rfl]
        · rw [if_neg hKey, if_neg hKey]

/-- The same sessions are there. -/
theorem isSome_find_swapIn {κ α : Type} [DecidableEq κ] (members : List (κ × α)) (k key : κ)
    (value : α) : (UnorderedMap.find (swapIn members k value) key).isSome =
      (UnorderedMap.find members key).isSome := by
  rw [find_swapIn]
  by_cases hKey : key = k
  · rw [if_pos hKey, Option.isSome_map, hKey]
  · rw [if_neg hKey]

end ProcessManager

end Kexplorer.Process

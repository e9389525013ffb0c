import Kexplorer.Process.ListProcesses

/-!
# What the table of a process says

Two processes with a valid stat have the same table exactly if they agree in
`Shown`.  The command name of the stat record is not part of it: under its name
`ProcessInfo::serialize` puts the other command name once more.
-/

namespace Kexplorer.Process

open Kexplorer.Json Kexplorer.Props Kexplorer.Util

/-- Tables with the same name and, under every key, the same member or none. -/
def SameContents : PropertyBag → PropertyBag → Prop
  | .table name members, .table name' members' =>
      name = name' ∧ ∀ key, UnorderedMap.find members key = UnorderedMap.find members' key
  | _, _ => False

/-- The two processes agree in all published fields but the command name of the stat record. -/
structure Shown (p q : ProcessInfo) : Prop where
  pid : p.stat.pid = q.stat.pid
  ppid : p.stat.ppid = q.stat.ppid
  pgrp : p.stat.pgrp = q.stat.pgrp
  tpgid : p.stat.tpgid = q.stat.tpgid
  session : p.stat.session = q.stat.session
  ruid : p.stat.ruid = q.stat.ruid
  comm : p.comm = q.comm
  exe : p.exe = q.exe
  cmdLine : p.cmdLine = q.cmdLine
  newcomer : p.newcomer = q.newcomer

/-- If the two processes have tables with equal contents, they agree in all published fields. -/
def Faithful (p q : ProcessInfo) : Prop :=
  ∀ t u, p.serialize = some t → q.serialize = some u → SameContents t u →
    Shown p q ∧ p.stat.comm = q.stat.comm

section

variable {p q : ProcessInfo}

/-- What the tables have under the name of a candidate. -/
theorem eq_of_sameContents {c d : Bool × PropertyInfo × Any}
    (hSame : ∀ key, UnorderedMap.find (p.fields.map scalar) key =
      UnorderedMap.find (q.fields.map scalar) key)
    (hc : c ∈ p.candidates) (hd : d ∈ q.candidates) (hInfo : c.2.1 = d.2.1) :
    (if c.1 then some c.2.2 else none) = if d.1 then some d.2.2 else none := by
  have hKey := hSame c.2.1.idstr.bytes
  rw [find_fields hc, hInfo, find_fields hd] at hKey
  by_cases hLeft : c.1 = true <;> by_cases hRight : d.1 = true <;>
    simp only [hLeft, hRight, if_true, if_false, Bool.false_eq_true] at hKey ⊢
  · injection hKey with hBag
    injection hBag with _ hProp
    injection hProp
  · cases hKey
  · cases hKey

/-- A field that is there whatever its value. -/
private theorem value_eq {x y : Any} (h : (if true = true then some x else none) =
    if true = true then some y else none) : x = y :=
  Option.some.inj h

/-- An optional string that is not there is empty. -/
private theorem optional_eq {x y : Bytes}
    (h : (if (true && decide (x ≠ [])) = true then some (Any.string x) else none) =
      if (true && decide (y ≠ [])) = true then some (Any.string y) else none) : x = y := by
  by_cases hx : x = [] <;> by_cases hy : y = [] <;> simp_all

/-- The table of a process with a valid stat shows the fields of `Shown`. -/
theorem shown_of_sameContents (hp : p.stat.valid = true) (hq : q.stat.valid = true)
    (hSame : ∀ key, UnorderedMap.find (p.fields.map scalar) key =
      UnorderedMap.find (q.fields.map scalar) key) : Shown p q := by
  have hAt (i : Nat) (c d : Bool × PropertyInfo × Any) (hc : p.candidates[i]? = some c)
      (hd : q.candidates[i]? = some d) (hInfo : c.2.1 = d.2.1) :=
    eq_of_sameContents hSame (List.mem_of_getElem? hc) (List.mem_of_getElem? hd) hInfo
  simp only [ProcessInfo.candidates, hp, hq] at hAt
  have hPid := value_eq (hAt 0 _ _ rfl rfl rfl)
  have hNewcomer := hAt 1 _ _ rfl rfl rfl
  have hPPid := value_eq (hAt 3 _ _ rfl rfl rfl)
  have hPGrp := value_eq (hAt 4 _ _ rfl rfl rfl)
  have hTpgid := value_eq (hAt 5 _ _ rfl rfl rfl)
  have hSession := value_eq (hAt 6 _ _ rfl rfl rfl)
  have hComm := value_eq (hAt 7 _ _ rfl rfl rfl)
  have hRuid := value_eq (hAt 8 _ _ rfl rfl rfl)
  have hExe := optional_eq (hAt 10 _ _ rfl rfl rfl)
  have hCmdLine := optional_eq (hAt 11 _ _ rfl rfl rfl)
  refine ⟨Any.int.inj hPid, Any.int.inj hPPid, Any.int.inj hPGrp, Any.int.inj hTpgid,
    Any.int.inj hSession, ?_, Any.string.inj hComm, hExe, hCmdLine, ?_⟩
  · have hBits := congrArg Int32.toBitVec (Any.int.inj hRuid)
    exact UInt32.toBitVec_inj.mp hBits
  · generalize p.newcomer = x at hNewcomer ⊢
    generalize q.newcomer = y at hNewcomer ⊢
    cases x <;> cases y <;> first | rfl | cases hNewcomer

/-- Processes that agree in these fields have the same fields. -/
theorem fields_eq_of_shown (hp : p.stat.valid = true) (hq : q.stat.valid = true) (h : Shown p q) :
    p.fields = q.fields := by
  simp only [ProcessInfo.fields, ProcessInfo.candidates, hp, hq, h.pid, h.ppid, h.pgrp, h.tpgid,
    h.session, h.ruid, h.comm, h.exe, h.cmdLine, h.newcomer, Bool.not_true, List.filter_cons,
    Bool.false_eq_true, if_false]

/-- The tables of two processes with a valid stat tell them apart, in every published field, if and
only if they do not differ in the command name of the stat record alone. -/
theorem faithful_iff (p q : ProcessInfo) (hp : p.stat.valid = true) (hq : q.stat.valid = true) :
    Faithful p q ↔ (Shown p q → p.stat.comm = q.stat.comm) := by
  unfold Faithful
  constructor
  · intro h hShown
    refine (h _ _ (serialize_eq p) (serialize_eq q) ⟨rfl, fun key => ?_⟩).2
    rw [fields_eq_of_shown hp hq hShown]
  · intro h t u ht hu hSame
    rw [serialize_eq] at ht hu
    cases ht
    cases hu
    have hShown := shown_of_sameContents hp hq hSame.2
    exact ⟨hShown, h hShown⟩

end

/-- A process with a valid stat in which only the command name is set. -/
def withStatComm (comm : Bytes) : ProcessInfo where
  timestamp := 1
  stat := { valid := true, pid := 7, comm := comm, startTime := 0 }
  comm := ascii "worker"
  exe := []
  cmdLine := []

theorem faithful_iff_worker :
    Faithful (withStatComm (ascii "a")) (withStatComm (ascii "b")) ↔
      (Shown (withStatComm (ascii "a")) (withStatComm (ascii "b")) → ascii "a" = ascii "b") :=
  faithful_iff (withStatComm (ascii "a")) (withStatComm (ascii "b")) rfl rfl

/-- Two records with different command names have the same table. -/
theorem statComm_lost :
    (withStatComm (ascii "a")).stat.valid = true ∧ (withStatComm (ascii "b")).stat.valid = true ∧
      ¬ Faithful (withStatComm (ascii "a")) (withStatComm (ascii "b")) := by
  refine ⟨rfl, rfl, fun h => ?_⟩
  have hSame := h _ _ (serialize_eq _) (serialize_eq _) ⟨rfl, fun _ => rfl⟩
  exact absurd hSame.2 (by decide)

end Kexplorer.Process

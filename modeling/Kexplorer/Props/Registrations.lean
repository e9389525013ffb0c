import Kexplorer.Lib.Run
import Kexplorer.Props.Registry

/-!
# Sequences of registrations

The registry holds pointers, and two objects may give the same answers, so the
pointers stand for themselves here; `pointees` is the registry of what they
point to.  A caller may catch what `registerProperty` throws and go on.

The two maps are in step as long as no registration has a free id and a taken
name.  Such a registration throws after it has entered the id.
-/

namespace Kexplorer.Props

open Kexplorer.Lib

/-- `s_registry`, with the pointers. -/
structure PtrRegistry (Ptr : Type) where
  propsById : List (PropId × Ptr)
  propsByName : List (Bytes × Ptr)

namespace PtrRegistry

variable {Ptr : Type}

def empty : PtrRegistry Ptr := ⟨[], []⟩

/-- `lookupProperty(PropId)`. -/
def lookupId (reg : PtrRegistry Ptr) (id : PropId) : Option Ptr :=
  UnorderedMap.find reg.propsById id

/-- `lookupProperty(const char*)`. -/
def lookupName (reg : PtrRegistry Ptr) (id : CString) : Option Ptr :=
  UnorderedMap.find reg.propsByName id.bytes

section

variable (info : Ptr → PropertyInfo)

/-- `registerProperty`, with the text of the exception it may throw. -/
def registerProperty (reg : PtrRegistry Ptr) (pi : Ptr) : Except Bytes Unit × PtrRegistry Ptr :=
  if (UnorderedMap.find reg.propsById (info pi).id).isSome then
    (.error (ascii "Property with ID " ++ hex8 (info pi).id ++ ascii " already registered"), reg)
  else
    let reg := { reg with propsById := UnorderedMap.insert reg.propsById (info pi).id pi }
    if (UnorderedMap.find reg.propsByName (info pi).idstr.bytes).isSome then
      (.error (ascii "Property with ID " ++ (info pi).idstr.bytes ++ ascii " already registered"),
        reg)
    else
      (.ok (),
        { reg with
          propsByName := UnorderedMap.insert reg.propsByName (info pi).idstr.bytes pi })

/-- What the pointers point to. -/
def pointees (reg : PtrRegistry Ptr) : Registry where
  propsById := reg.propsById.map fun m => (m.1, info m.2)
  propsByName := reg.propsByName.map fun m => (m.1, info m.2)

/-- A call whose exception, if it throws one, is caught. -/
def step (reg : PtrRegistry Ptr) (pi : Ptr) : Except Empty (PtrRegistry Ptr) :=
  .ok (reg.registerProperty info pi).2

/-- The two maps hold the same properties, each under its own id and its own name. -/
structure InStep (reg : PtrRegistry Ptr) : Prop where
  id_eq : ∀ {id pi}, reg.lookupId id = some pi → (info pi).id = id
  idstr_eq : ∀ {id pi}, reg.lookupName id = some pi → (info pi).idstr = id
  same : ∀ pi, reg.lookupId (info pi).id = some pi ↔ reg.lookupName (info pi).idstr = some pi

/-- The call leaves the registry alone if it throws, and the two maps in step. -/
def AllOrNothing (reg : PtrRegistry Ptr) (pi : Ptr) : Prop :=
  (∀ text, (reg.registerProperty info pi).1 = .error text →
      (reg.registerProperty info pi).2 = reg) ∧
    InStep info (reg.registerProperty info pi).2

/-- The id is free and the name is not. -/
def NameClash (reg : PtrRegistry Ptr) (pi : Ptr) : Prop :=
  reg.lookupId (info pi).id = none ∧ (reg.lookupName (info pi).idstr).isSome = true

end

variable {info : Ptr → PropertyInfo}

theorem insert_map {κ α β : Type} [DecidableEq κ] (f : α → β) (members : List (κ × α)) (key : κ)
    (a : α) :
    UnorderedMap.insert (members.map fun m => (m.1, f m.2)) key (f a) =
      (UnorderedMap.insert members key a).map fun m => (m.1, f m.2) := by
  unfold UnorderedMap.insert
  rw [UnorderedMap.find_map fun _ => f, Option.isSome_map]
  split
  · rfl
  · rw [List.map_append, List.map_singleton]

/-- The registry of the pointees makes the same steps. -/
theorem registerProperty_pointees (reg : PtrRegistry Ptr) (pi : Ptr) :
    (reg.pointees info).registerProperty (info pi) =
      ((reg.registerProperty info pi).1, (reg.registerProperty info pi).2.pointees info) := by
  unfold registerProperty Registry.registerProperty
  simp only [pointees, UnorderedMap.find_map fun _ => info, insert_map, Option.isSome_map]
  split
  · rfl
  · split <;> rfl

variable (info) in
/-- The three things a registration can do. -/
theorem registerProperty_cases (reg : PtrRegistry Ptr) (pi : Ptr) :
    (reg.lookupId (info pi).id ≠ none ∧
      ∃ text, reg.registerProperty info pi = (.error text, reg)) ∨
    (NameClash info reg pi ∧ ∃ text, reg.registerProperty info pi = (.error text,
      { reg with propsById := UnorderedMap.insert reg.propsById (info pi).id pi })) ∨
    (reg.lookupId (info pi).id = none ∧ reg.lookupName (info pi).idstr = none ∧
      reg.registerProperty info pi = (.ok (),
        { propsById := UnorderedMap.insert reg.propsById (info pi).id pi
          propsByName := UnorderedMap.insert reg.propsByName (info pi).idstr.bytes pi })) := by
  unfold registerProperty
  split
  · rename_i hId
    exact .inl ⟨Option.isSome_iff_ne_none.mp hId, _, rfl⟩
  · rename_i hId
    rw [Option.not_isSome_iff_eq_none] at hId
    dsimp only
    split
    · rename_i hName
      exact .inr (.inl ⟨⟨hId, hName⟩, _, rfl⟩)
    · rename_i hName
      rw [Option.not_isSome_iff_eq_none] at hName
      exact .inr (.inr ⟨hId, hName, rfl⟩)

theorem find_insert_eq_some {κ α : Type} [DecidableEq κ] {members : List (κ × α)} {k key : κ}
    {a b : α} (hFree : UnorderedMap.find members k = none) :
    UnorderedMap.find (UnorderedMap.insert members k a) key = some b ↔
      UnorderedMap.find members key = some b ∨ (key = k ∧ a = b) := by
  rw [UnorderedMap.find_insert]
  by_cases hKey : key = k
  · simp [hKey, hFree]
  · simp [hKey]

theorem inStep_empty : InStep info (empty : PtrRegistry Ptr) := by
  constructor
  · rintro id pi ⟨⟩
  · rintro id pi ⟨⟩
  · exact fun pi => Iff.rfl

/-- Entering a property under a free id and a free name keeps the maps in step. -/
theorem InStep.insert {reg : PtrRegistry Ptr} (h : InStep info reg) {pi : Ptr}
    (hId : reg.lookupId (info pi).id = none) (hName : reg.lookupName (info pi).idstr = none) :
    InStep info
      { propsById := UnorderedMap.insert reg.propsById (info pi).id pi
        propsByName := UnorderedMap.insert reg.propsByName (info pi).idstr.bytes pi } := by
  have hById (id : PropId) (q : Ptr) :
      UnorderedMap.find (UnorderedMap.insert reg.propsById (info pi).id pi) id = some q ↔
        reg.lookupId id = some q ∨ (id = (info pi).id ∧ pi = q) :=
    find_insert_eq_some hId
  have hByName (id : CString) (q : Ptr) :
      UnorderedMap.find (UnorderedMap.insert reg.propsByName (info pi).idstr.bytes pi) id.bytes =
          some q ↔ reg.lookupName id = some q ∨ (id = (info pi).idstr ∧ pi = q) := by
    rw [find_insert_eq_some hName, CString.bytes_inj, lookupName]
  constructor
  · intro id q hFound
    rcases (hById id q).mp hFound with hOld | ⟨rfl, rfl⟩
    · exact h.id_eq hOld
    · rfl
  · intro id q hFound
    rcases (hByName id q).mp hFound with hOld | ⟨rfl, rfl⟩
    · exact h.idstr_eq hOld
    · rfl
  · intro q
    rw [lookupId, lookupName, hById, hByName, h.same]
    refine or_congr_right ⟨?_, ?_⟩
    · rintro ⟨-, rfl⟩
      exact ⟨rfl, rfl⟩
    · rintro ⟨-, rfl⟩
      exact ⟨rfl, rfl⟩

/-- On maps that are in step, only a name clash breaks the registration. -/
theorem allOrNothing_iff {reg : PtrRegistry Ptr} (h : InStep info reg) (pi : Ptr) :
    AllOrNothing info reg pi ↔ ¬ NameClash info reg pi := by
  rcases registerProperty_cases info reg pi with
    ⟨hId, text, hReg⟩ | ⟨hClash, text, hReg⟩ | ⟨hId, hName, hReg⟩
  · refine iff_of_true ?_ fun hClash => hId hClash.1
    rw [AllOrNothing, hReg]
    exact ⟨fun _ _ => rfl, h⟩
  · refine iff_of_false (fun hAll => ?_) (fun hNot => hNot hClash)
    -- the id is in the map afterwards
    have hSame := hAll.1 text (congrArg Prod.fst hReg)
    rw [hReg] at hSame
    have hId := hClash.1
    rw [← hSame, lookupId, UnorderedMap.find_insert, if_pos rfl] at hId
    simp at hId
  · refine iff_of_true ?_ fun hClash => ?_
    · rw [AllOrNothing, hReg]
      refine ⟨fun text hText => ?_, h.insert hId hName⟩
      cases hText
    · rw [NameClash, hName] at hClash
      cases hClash.2

/-- All registrations of a sequence are all or nothing if and only if none has a free id and a
taken name. -/
theorem registrations_iff (info : Ptr → PropertyInfo) (calls : List Ptr) :
    Always (step info) (AllOrNothing info) empty calls ↔
      Always (step info) (fun reg pi => ¬ NameClash info reg pi) empty calls := by
  refine always_congr (I := InStep info) (fun reg pi h => allOrNothing_iff h pi) ?_ calls
    inStep_empty
  intro reg pi reg' h hClash hStep
  cases hStep
  exact ((allOrNothing_iff h pi).mpr hClash).2

/-- Two properties of one name. -/
def namesakes (second : Bool) : PropertyInfo where
  id := if second then 2 else 1
  idstr := literal "process.pid"
  type := .int
  base := .int

/-- The second one is found under its id after its registration has failed. -/
theorem namesake_entered :
    ¬ Always (step namesakes) (AllOrNothing namesakes) empty [false, true] := by
  intro h
  have hSame := (h.2 _ rfl).1.1 _ rfl
  have hLength := congrArg (fun reg => reg.propsById.length) hSame
  exact absurd hLength (by decide)

end PtrRegistry

end Kexplorer.Props

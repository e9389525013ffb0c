import Kexplorer.Lib.Custody
import Kexplorer.Lib.Run

/-!
# The owning wrappers

`GenericHandle` and `AutoPtr` hold a handle each and pass it to a deleter in the
end.  They have the same constructors, destructor and assignment, built on a
`reset` that each of them writes for itself: `Wrapper` is what this depends on.

Objects come and go.  `Owners` has the member of every object there is, all valid
handles that have been given to one and all that a deleter has been passed.

`always_kept` says in which runs these three agree: with an `AutoPtr` in all of
them, while a `GenericHandle` that holds nothing drops the handle of a `reset`.
-/

namespace Kexplorer.Util

open Kexplorer.Lib

variable {O H : Type}

/-- Uses of objects that no program makes. -/
inductive Lifetime where
  /-- There is no such object. -/
  | over
  /-- There is one already. -/
  | begun
  deriving DecidableEq

/-- The objects of a class and the handles that have passed through them. -/
structure Owners (O H : Type) where
  objects : O → Option H
  given : List H
  deleted : List H

namespace Owners

/-- Before there is any object. -/
def none : Owners O H := ⟨fun _ => .none, [], []⟩

/-- The member of an object. -/
def member (s : Owners O H) (o : O) : Except Lifetime H :=
  match s.objects o with
  | some m => .ok m
  | .none => .error .over

theorem member_eq_ok_iff {s : Owners O H} {o : O} {m : H} :
    s.member o = .ok m ↔ s.objects o = some m := by
  rw [member]
  rcases s.objects o with _ | m' <;> simp

end Owners

/-- What is done to the objects. -/
inductive OwnerEvent (O H : Type) where
  | construct (o : O) (h : H)
  | moveConstruct (o other : O)
  | moveAssign (o other : O)
  | reset (o : O) (h : H)
  | destroy (o : O)
  deriving DecidableEq

/-! ## The classes -/

variable [DecidableEq H]

/-- A handle, if it is valid. -/
def validHandle (invalid h : H) : Option H := if h ≠ invalid then some h else none

theorem validHandle_eq_some_iff {invalid h x : H} :
    validHandle invalid h = some x ↔ h = x ∧ h ≠ invalid := by
  rw [validHandle]
  split_ifs with hValid
  · simp [hValid]
  · simp [hValid]

@[simp] theorem validHandle_self (invalid : H) : validHandle invalid invalid = none :=
  if_neg fun h => h rfl

theorem ne_of_mem_validHandle {invalid h x : H} (hMem : x ∈ (validHandle invalid h).toList) :
    x ≠ invalid := by
  obtain ⟨rfl, hValid⟩ := validHandle_eq_some_iff.mp (Option.mem_toList.mp hMem)
  exact hValid

/-- A class of owners.  Whichever handle it is reset to, it passes the valid one it holds to the
deleter. -/
structure Wrapper (H : Type) [DecidableEq H] where
  /-- The handle of an owner that holds none. -/
  invalid : H
  reset : H → H → H × List H
  releases : ∀ m h, (reset m h).2 = if m ≠ invalid then [m] else []

/-- `GenericHandle::reset`: what is in `m_h` afterwards and what the deleter is passed. -/
def GenericHandle.reset (InvalidHandle m_h h : H) : H × List H :=
  if m_h ≠ InvalidHandle then (h, [m_h]) else (m_h, [])

/-- `AutoPtr::reset`. -/
def AutoPtr.reset (nullptr m_ptr ptr : H) : H × List H :=
  (ptr, if m_ptr ≠ nullptr then [m_ptr] else [])

/-- `GenericHandle`. -/
def GenericHandle (InvalidHandle : H) : Wrapper H where
  invalid := InvalidHandle
  reset := GenericHandle.reset InvalidHandle
  releases m h := by
    rw [GenericHandle.reset]
    split_ifs <;> rfl

/-- `AutoPtr`. -/
def AutoPtr (nullptr : H) : Wrapper H where
  invalid := nullptr
  reset := AutoPtr.reset nullptr
  releases _ _ := rfl

/-- The valid handles that an event gives to an object. -/
def OwnerEvent.gives (invalid : H) : OwnerEvent O H → List H
  | .construct _ h => (validHandle invalid h).toList
  | .moveConstruct _ _ => []
  | .moveAssign _ _ => []
  | .reset _ h => (validHandle invalid h).toList
  | .destroy _ => []

/-- Every valid handle is with one owner, or has been deleted once. -/
structure Conserved (s : Owners O H) : Prop where
  kept : ∀ h ∈ s.given,
    ((∃! o, s.objects o = some h) ∧ s.deleted.count h = 0) ∨
      ((∀ o, s.objects o ≠ some h) ∧ s.deleted.count h = 1)
  settled : (∀ o, s.objects o = none) → ∀ h ∈ s.given, s.deleted.count h = 1

/-! ## What the objects hold -/

namespace Wrapper

variable (w : Wrapper H)

/-- A `reset` of an owner stores the handle. -/
def Stores (s : Owners O H) (e : OwnerEvent O H) : Prop :=
  ∀ o h m, e = .reset o h → s.objects o = some m → (w.reset m h).1 = h

/-- The valid handle that an object holds. -/
def held (objects : O → Option H) (o : O) : Option H := (objects o).bind (validHandle w.invalid)

/-- The books agree with the objects, and only valid handles are in them. -/
structure Sound (s : Owners O H) : Prop where
  balanced : Balanced (w.held s.objects) s.deleted s.given
  valid : ∀ h ∈ s.given, h ≠ w.invalid

theorem releases_eq (m h : H) : (w.reset m h).2 = (validHandle w.invalid m).toList := by
  rw [w.releases, validHandle]
  split_ifs <;> rfl

theorem held_eq_some_iff {objects : O → Option H} {o : O} {h : H} (hValid : h ≠ w.invalid) :
    w.held objects o = some h ↔ objects o = some h := by
  rw [held, Option.bind_eq_some_iff]
  constructor
  · rintro ⟨m, hMember, hHeld⟩
    rwa [← (validHandle_eq_some_iff.mp hHeld).1]
  · exact fun h => ⟨_, h, validHandle_eq_some_iff.mpr ⟨rfl, hValid⟩⟩

theorem held_eq_bind {objects : O → Option H} {o : O} {m : Option H} (h : objects o = m) :
    w.held objects o = m.bind (validHandle w.invalid) := by
  rw [held, h]

/-- Conservation is read off the books. -/
theorem Sound.conserved {s : Owners O H} (h : w.Sound s) : Conserved s where
  kept x hx := by
    have hPlace := h.balanced.held_or_released hx
    simp only [ne_eq, w.held_eq_some_iff (h.valid x hx)] at hPlace
    exact hPlace
  settled hGone x hx := by
    rcases h.balanced.held_or_released hx with ⟨⟨o, ho, -⟩, -⟩ | ⟨-, hCount⟩
    · cases ho.symm.trans (w.held_eq_bind (hGone o))
    · exact hCount

variable {w}

theorem sound_none : w.Sound (Owners.none : Owners O H) where
  balanced := Balanced.empty
  valid _ h := by cases h

/-- All handles that a run gives are new to the books, and to each other. -/
def Fresh (w : Wrapper H) (s : Owners O H) (es : List (OwnerEvent O H)) : Prop :=
  (s.given ++ es.flatMap (OwnerEvent.gives w.invalid)).Nodup

theorem Fresh.notMem {s : Owners O H} {e : OwnerEvent O H} {es : List (OwnerEvent O H)}
    (h : w.Fresh s (e :: es)) : ∀ x ∈ e.gives w.invalid, x ∉ s.given := by
  intro x hNew hGiven
  rw [Fresh, List.flatMap_cons, ← List.append_assoc] at h
  exact (List.nodup_append.mp (List.nodup_append.mp h).1).2.2 x hGiven x hNew rfl

end Wrapper

/-- No valid handle is given, by `reset`, to an owner that holds none. -/
def ResetsHolders (InvalidHandle : H) (s : Owners O H) (e : OwnerEvent O H) : Prop :=
  ∀ o h, e = .reset o h → s.objects o = some InvalidHandle → h = InvalidHandle

theorem GenericHandle.stores_iff (InvalidHandle : H) (s : Owners O H) (e : OwnerEvent O H) :
    (GenericHandle InvalidHandle).Stores s e ↔ ResetsHolders InvalidHandle s e := by
  constructor
  · intro hStores o h hReset hMember
    have hStored : (GenericHandle.reset InvalidHandle InvalidHandle h).1 = h :=
      hStores o h InvalidHandle hReset hMember
    rw [GenericHandle.reset, if_neg fun hNe => hNe rfl] at hStored
    exact hStored.symm
  · intro hHolders o h m hReset hMember
    change (GenericHandle.reset InvalidHandle m h).1 = h
    rw [GenericHandle.reset]
    split_ifs with hHolds
    · rfl
    · rw [not_not] at hHolds
      subst hHolds
      exact (hHolders o h hReset hMember).symm

theorem AutoPtr.stores (nullptr : H) (s : Owners O H) (e : OwnerEvent O H) :
    (AutoPtr nullptr).Stores s e := fun _ _ _ _ _ => rfl

/-! ## The events -/

variable [DecidableEq O]

namespace Owners

/-- An assignment to the member of an object. -/
def assign (s : Owners O H) (o : O) (m : H) : Owners O H :=
  { s with objects := Function.update s.objects o (some m) }

/-- `swap(m_h, o.m_h)`. -/
def swap (s : Owners O H) (a b : O) : Except Lifetime (Owners O H) := do
  let x ← s.member a
  let y ← s.member b
  .ok ((s.assign a y).assign b x)

omit [DecidableEq H] in
theorem swap_eq {s : Owners O H} {a b : O} {x y : H} (ha : s.objects a = some x)
    (hb : s.objects b = some y) : s.swap a b = .ok ((s.assign a y).assign b x) := by
  rw [swap, member_eq_ok_iff.mpr ha, member_eq_ok_iff.mpr hb]
  rfl

end Owners

namespace Wrapper

variable (w : Wrapper H)

/-- The constructor from a handle. -/
def construct (s : Owners O H) (o : O) (h : H) : Except Lifetime (Owners O H) :=
  if (s.objects o).isSome then .error .begun
  else .ok { s.assign o h with given := s.given ++ (validHandle w.invalid h).toList }

/-- The move constructor. -/
def moveConstruct (s : Owners O H) (o other : O) : Except Lifetime (Owners O H) := do
  let _ ← s.member other
  if (s.objects o).isSome then .error .begun
  else (s.assign o w.invalid).swap o other

/-- The move assignment.  The member of `tmp` is a value of its own, which the destructor of `tmp`
is left with. -/
def moveAssign (s : Owners O H) (o other : O) : Except Lifetime (Owners O H) := do
  let tmp ← s.member other
  let s := s.assign other w.invalid
  let m ← s.member o
  .ok { s.assign o tmp with deleted := s.deleted ++ (w.reset m w.invalid).2 }

/-- `reset(h)`, of an object. -/
def resetObject (s : Owners O H) (o : O) (h : H) : Except Lifetime (Owners O H) := do
  let m ← s.member o
  .ok { s.assign o (w.reset m h).1 with
    given := s.given ++ (validHandle w.invalid h).toList
    deleted := s.deleted ++ (w.reset m h).2 }

/-- The destructor. -/
def destroy (s : Owners O H) (o : O) : Except Lifetime (Owners O H) := do
  let m ← s.member o
  .ok { s with
    objects := Function.update s.objects o none
    deleted := s.deleted ++ (w.reset m w.invalid).2 }

def step (s : Owners O H) : OwnerEvent O H → Except Lifetime (Owners O H)
  | .construct o h => w.construct s o h
  | .moveConstruct o other => w.moveConstruct s o other
  | .moveAssign o other => w.moveAssign s o other
  | .reset o h => w.resetObject s o h
  | .destroy o => w.destroy s o

/-- After the event the handles are conserved, and what an owner has been reset to it holds. -/
def Kept (s : Owners O H) (e : OwnerEvent O H) : Prop :=
  ∀ s', w.step s e = .ok s' →
    Conserved s' ∧ ∀ o h, e = .reset o h → s'.objects o = some h

theorem held_update (objects : O → Option H) (o : O) (m : Option H) :
    w.held (Function.update objects o m) =
      Function.update (w.held objects) o (m.bind (validHandle w.invalid)) := by
  funext o'
  by_cases hOwner : o' = o
  · subst hOwner
    simp [held]
  · simp [held, hOwner]

theorem construct_eq_ok_iff {s s' : Owners O H} {o : O} {h : H} :
    w.construct s o h = .ok s' ↔ s.objects o = none ∧
      s' = ⟨Function.update s.objects o (some h), s.given ++ (validHandle w.invalid h).toList,
        s.deleted⟩ := by
  rw [construct]
  rcases s.objects o with _ | m <;> simp [Owners.assign, eq_comm]

theorem moveConstruct_eq_ok_iff {s s' : Owners O H} {o other : O} :
    w.moveConstruct s o other = .ok s' ↔ ∃ m, s.objects other = some m ∧ s.objects o = none ∧
      s' = ⟨Function.update (Function.update s.objects o (some m)) other (some w.invalid),
        s.given, s.deleted⟩ := by
  simp only [moveConstruct, bind_eq_ok_iff, Owners.member_eq_ok_iff]
  refine exists_congr fun m => and_congr_right fun hOther => ?_
  rcases hMember : s.objects o with _ | m'
  · have hNe : other ≠ o := by
      rintro rfl
      cases hOther.symm.trans hMember
    have hSwap : (s.assign o w.invalid).swap o other =
        .ok (((s.assign o w.invalid).assign o m).assign other w.invalid) :=
      Owners.swap_eq (by simp [Owners.assign]) (by simp [Owners.assign, hNe, hOther])
    rw [hSwap]
    simp [Owners.assign, eq_comm]
  · simp

theorem moveAssign_eq_ok_iff {s s' : Owners O H} {o other : O} :
    w.moveAssign s o other = .ok s' ↔ ∃ tmp m, s.objects other = some tmp ∧
      Function.update s.objects other (some w.invalid) o = some m ∧
      s' = ⟨Function.update (Function.update s.objects other (some w.invalid)) o (some tmp),
        s.given, s.deleted ++ (validHandle w.invalid m).toList⟩ := by
  simp only [moveAssign, bind_eq_ok_iff, Owners.member_eq_ok_iff, Owners.assign, releases_eq]
  constructor
  · rintro ⟨tmp, hOther, m, hMember, ⟨⟩⟩
    exact ⟨tmp, m, hOther, hMember, rfl⟩
  · rintro ⟨tmp, m, hOther, hMember, rfl⟩
    exact ⟨tmp, hOther, m, hMember, rfl⟩

theorem resetObject_eq_ok_iff {s s' : Owners O H} {o : O} {h : H} :
    w.resetObject s o h = .ok s' ↔ ∃ m, s.objects o = some m ∧
      s' = ⟨Function.update s.objects o (some (w.reset m h).1), s.given ++ (validHandle w.invalid h).toList,
        s.deleted ++ (validHandle w.invalid m).toList⟩ := by
  simp only [resetObject, bind_eq_ok_iff, Owners.member_eq_ok_iff, Owners.assign, releases_eq]
  exact exists_congr fun m => and_congr_right fun _ => by rw [Except.ok.injEq, eq_comm]

theorem destroy_eq_ok_iff {s s' : Owners O H} {o : O} :
    w.destroy s o = .ok s' ↔ ∃ m, s.objects o = some m ∧
      s' = ⟨Function.update s.objects o none, s.given, s.deleted ++ (validHandle w.invalid m).toList⟩ := by
  simp only [destroy, bind_eq_ok_iff, Owners.member_eq_ok_iff, releases_eq]
  exact exists_congr fun m => and_congr_right fun _ => by rw [Except.ok.injEq, eq_comm]

/-! ## The invariant -/

variable {w}

/-- An owner passes what it holds to the deleter and takes another handle. -/
theorem Sound.replace {s : Owners O H} (h : w.Sound s) (o : O) (m : Option H) {new : Option H}
    (hHeld : m.bind (validHandle w.invalid) = new) (hNew : ∀ x ∈ new.toList, x ∉ s.given)
    (hValid : ∀ x ∈ new.toList, x ≠ w.invalid) :
    w.Sound ⟨Function.update s.objects o m, s.given ++ new.toList,
      s.deleted ++ (w.held s.objects o).toList⟩ where
  balanced := by
    rw [held_update, hHeld]
    exact h.balanced.replace o fun x hx => hNew x (Option.mem_toList.mpr hx)
  valid x hx := by
    rcases List.mem_append.mp hx with hOld | hTaken
    · exact h.valid x hOld
    · exact hValid x hTaken

/-- An owner passes what it holds to the deleter and then holds nothing. -/
theorem Sound.release {s : Owners O H} (h : w.Sound s) (o : O) {m : Option H}
    (hHeld : m.bind (validHandle w.invalid) = none) :
    w.Sound ⟨Function.update s.objects o m, s.given, s.deleted ++ (w.held s.objects o).toList⟩ := by
  have := h.replace o m hHeld (by simp) (by simp)
  rwa [Option.toList_none, List.append_nil] at this

/-- An owner that holds nothing takes over the handle of another one. -/
theorem Sound.transfer {s s' : Owners O H} (h : w.Sound s) {o other : O} (hNe : o ≠ other)
    (hNone : w.held s.objects o = none)
    (hHeld : w.held s'.objects = Function.update (Function.update (w.held s.objects) o (w.held s.objects other)) other none)
    (hGiven : s'.given = s.given) (hDeleted : s'.deleted = s.deleted) : w.Sound s' where
  balanced := by
    have hSwap : w.held s'.objects = w.held s.objects ∘ Equiv.swap o other := by
      funext x
      rw [hHeld, Function.comp_apply]
      rcases eq_or_ne x other with rfl | hOther
      · rw [Function.update_self, Equiv.swap_apply_right, hNone]
      · rcases eq_or_ne x o with rfl | hOwner
        · rw [Function.update_of_ne hNe, Function.update_self, Equiv.swap_apply_left]
        · rw [Function.update_of_ne hOther, Function.update_of_ne hOwner,
            Equiv.swap_apply_of_ne_of_ne hOwner hOther]
    rw [hSwap, hGiven, hDeleted]
    exact h.balanced.permute (Equiv.swap o other)
  valid := by
    rw [hGiven]
    exact h.valid

theorem Sound.moveAssign {s s' : Owners O H} (h : w.Sound s) {o other : O}
    (hOk : w.moveAssign s o other = .ok s') : w.Sound s' := by
  obtain ⟨tmp, m, hOther, hMember, rfl⟩ := (w.moveAssign_eq_ok_iff).mp hOk
  have hTmp := w.held_eq_bind hOther
  rcases eq_or_ne o other with rfl | hNe
  · -- `tmp` hands the member back to the object it was taken from.
    rw [Function.update_self] at hMember
    cases hMember
    rw [validHandle_self, Option.toList_none, List.append_nil, Function.update_idem,
      ← hOther, Function.update_eq_self]
    exact h
  · rw [Function.update_of_ne hNe] at hMember
    have hReleased := h.release o (m := some w.invalid) (validHandle_self _)
    rw [w.held_eq_bind hMember] at hReleased
    refine hReleased.transfer hNe ?_ ?_ rfl rfl
    · rw [held_update, Function.update_self]
      exact (validHandle_self _)
    · rw [held_update, held_update, held_update, Function.update_of_ne hNe.symm,
        Function.update_idem, w.held_eq_bind hOther, Function.update_comm hNe]
      simp only [Option.bind_some, validHandle_self]

theorem Sound.moveConstruct {s s' : Owners O H} (h : w.Sound s) {o other : O}
    (hOk : w.moveConstruct s o other = .ok s') : w.Sound s' := by
  obtain ⟨m, hOther, hNone, rfl⟩ := (w.moveConstruct_eq_ok_iff).mp hOk
  have hNe : o ≠ other := by
    rintro rfl
    cases hOther.symm.trans hNone
  refine h.transfer hNe (w.held_eq_bind hNone) ?_ rfl rfl
  rw [held_update, held_update, w.held_eq_bind hOther]
  simp only [Option.bind_some, validHandle_self]

theorem Sound.destroy {s s' : Owners O H} (h : w.Sound s) {o : O}
    (hOk : w.destroy s o = .ok s') : w.Sound s' := by
  obtain ⟨m, hMember, rfl⟩ := (w.destroy_eq_ok_iff).mp hOk
  have hReleased := h.release o (m := none) rfl
  rwa [w.held_eq_bind hMember] at hReleased

theorem Sound.construct {s s' : Owners O H} (h : w.Sound s) {o : O} {x : H}
    (hNew : ∀ y ∈ (validHandle w.invalid x).toList, y ∉ s.given) (hOk : w.construct s o x = .ok s') :
    w.Sound s' := by
  obtain ⟨hNone, rfl⟩ := (w.construct_eq_ok_iff).mp hOk
  have hTaken := h.replace o (some x) rfl hNew fun _ => ne_of_mem_validHandle
  rw [w.held_eq_bind hNone] at hTaken
  rwa [Option.bind_none, Option.toList_none, List.append_nil] at hTaken

theorem Sound.resetObject {s s' : Owners O H} (h : w.Sound s) {o : O} {x : H}
    (hNew : ∀ y ∈ (validHandle w.invalid x).toList, y ∉ s.given)
    (hStores : ∀ m, s.objects o = some m → (w.reset m x).1 = x)
    (hOk : w.resetObject s o x = .ok s') : w.Sound s' := by
  obtain ⟨m, hMember, rfl⟩ := (w.resetObject_eq_ok_iff).mp hOk
  have hTaken := h.replace o (some x) rfl hNew fun _ => ne_of_mem_validHandle
  rw [hStores m hMember]
  rwa [w.held_eq_bind hMember] at hTaken

/-- The books record what an event gives. -/
theorem given_step {s s' : Owners O H} {e : OwnerEvent O H} (hOk : w.step s e = .ok s') :
    s'.given = s.given ++ e.gives w.invalid := by
  cases e with
  | construct o h =>
      obtain ⟨-, rfl⟩ := (w.construct_eq_ok_iff).mp hOk
      rfl
  | moveConstruct o other =>
      obtain ⟨m, -, -, rfl⟩ := (w.moveConstruct_eq_ok_iff).mp hOk
      exact (List.append_nil _).symm
  | moveAssign o other =>
      obtain ⟨tmp, m, -, -, rfl⟩ := (w.moveAssign_eq_ok_iff).mp hOk
      exact (List.append_nil _).symm
  | reset o h =>
      obtain ⟨m, -, rfl⟩ := (w.resetObject_eq_ok_iff).mp hOk
      rfl
  | destroy o =>
      obtain ⟨m, -, rfl⟩ := (w.destroy_eq_ok_iff).mp hOk
      exact (List.append_nil _).symm

/-- An event that gives new handles only keeps the books, if a `reset` stores the handle. -/
theorem Sound.step {s s' : Owners O H} {e : OwnerEvent O H} (h : w.Sound s)
    (hNew : ∀ x ∈ e.gives w.invalid, x ∉ s.given) (hStores : w.Stores s e)
    (hOk : w.step s e = .ok s') : w.Sound s' := by
  cases e with
  | construct o x => exact h.construct hNew hOk
  | moveConstruct o other => exact h.moveConstruct hOk
  | moveAssign o other => exact h.moveAssign hOk
  | reset o x => exact h.resetObject hNew (fun m => hStores o x m rfl) hOk
  | destroy o => exact h.destroy hOk

/-! ## Runs -/

/-- On sound books, an event keeps the promises exactly if a `reset` stores the handle. -/
theorem Sound.kept_iff_stores {s : Owners O H} {e : OwnerEvent O H} (h : w.Sound s)
    (hNew : ∀ x ∈ e.gives w.invalid, x ∉ s.given) : w.Kept s e ↔ w.Stores s e := by
  constructor
  · rintro hKept o x m rfl hMember
    have hOk := (w.resetObject_eq_ok_iff (h := x)).mpr ⟨m, hMember, rfl⟩
    have hHolds := (hKept _ hOk).2 o x rfl
    dsimp only at hHolds
    rw [Function.update_self] at hHolds
    exact Option.some.inj hHolds
  · intro hStores s' hOk
    refine ⟨(h.step hNew hStores hOk).conserved, ?_⟩
    rintro o x rfl
    obtain ⟨m, hMember, rfl⟩ := (w.resetObject_eq_ok_iff).mp hOk
    exact (Function.update_self ..).trans (congrArg some (hStores o x m rfl hMember))

theorem Fresh.step {s s' : Owners O H} {e : OwnerEvent O H} {es : List (OwnerEvent O H)}
    (h : w.Fresh s (e :: es)) (hOk : w.step s e = .ok s') : w.Fresh s' es := by
  rw [Fresh, given_step hOk, List.append_assoc]
  exact h

theorem always_kept_iff_stores {es : List (OwnerEvent O H)} (h : (es.flatMap (OwnerEvent.gives w.invalid)).Nodup) :
    Always w.step w.Kept .none es ↔ Always w.step w.Stores .none es := by
  refine always_congr_ahead (I := fun s es => w.Sound s ∧ w.Fresh s es) ?_ ?_ es ⟨sound_none, h⟩
  · exact fun s e es hInv => hInv.1.kept_iff_stores hInv.2.notMem
  · exact fun s e es s' hInv hStores hOk =>
      ⟨hInv.1.step hInv.2.notMem hStores hOk, hInv.2.step hOk⟩

end Wrapper

/-- Handles of a `GenericHandle` class are conserved in the runs without a `reset` of an empty
owner to a valid handle, and those of an `AutoPtr` class in all. -/
theorem always_kept (invalid : H) (es : List (OwnerEvent O H))
    (hGiven : (es.flatMap (OwnerEvent.gives invalid)).Nodup) :
    (Always (GenericHandle invalid).step (GenericHandle invalid).Kept .none es ↔
        Always (GenericHandle invalid).step (ResetsHolders invalid) .none es) ∧
      Always (AutoPtr invalid).step (AutoPtr invalid).Kept .none es := by
  constructor
  · have hStores : (GenericHandle invalid).Stores = ResetsHolders (O := O) invalid := by
      funext s e
      exact propext (GenericHandle.stores_iff invalid s e)
    rw [← hStores]
    exact Wrapper.always_kept_iff_stores hGiven
  · exact (Wrapper.always_kept_iff_stores hGiven).mpr
      (always_of_forall (AutoPtr.stores invalid) es _)

/-- A file that is handed over before its new owner is reset, and a pointer that an owner without
one is reset to. -/
theorem always_kept_file :
    Always (GenericHandle (-1 : Int32)).step (GenericHandle (-1)).Kept .none
        [.construct (0 : Nat) 3, .construct 1 (-1), .moveAssign 1 0, .reset 1 4, .destroy 1] ∧
      Always (AutoPtr (-1 : Int32)).step (AutoPtr (-1)).Kept .none
        [.construct (0 : Nat) (-1), .reset 0 5, .destroy 0] := by
  refine ⟨(always_kept (-1) _ (by decide)).1.mpr ?_, (always_kept (-1) _ (by decide)).2⟩
  refine .step (by rintro _ _ ⟨⟩) rfl (.step (by rintro _ _ ⟨⟩) rfl ?_)
  refine .step (by rintro _ _ ⟨⟩) rfl (.step ?_ rfl (.step (by rintro _ _ ⟨⟩) rfl trivial))
  rintro _ _ ⟨⟩ hMember
  exact absurd hMember (by decide)

/-- An owner without a file drops the one that it is reset to. -/
theorem not_always_kept :
    (List.flatMap (OwnerEvent.gives (-1 : Int32)) [.construct (0 : Nat) (-1), .reset 0 5]).Nodup ∧
      ¬ Always (GenericHandle (-1 : Int32)).step (GenericHandle (-1)).Kept .none
        [.construct (0 : Nat) (-1), .reset 0 5] := by
  refine ⟨by decide, fun hAlways => ?_⟩
  have hKept := (hAlways.2 _ rfl).1 _ rfl
  exact absurd (hKept.2 0 5 rfl) (by decide)

end Kexplorer.Util

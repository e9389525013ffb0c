import Kexplorer.Props.PropertyBag
import Mathlib.Algebra.Group.Nat.Defs

/-!
# The registry of properties

Every property that a peer may send is registered once, under its id and under
its name.  The two maps are kept apart: a registration whose name is taken has
already entered the id when it throws.
-/

namespace Kexplorer.Props

/-- A digit as `%x` prints it. -/
def lowerHexDigit (n : Nat) : UInt8 := if n < 10 then (0x30 + n).toUInt8 else (0x57 + n).toUInt8

/-- `%08x`. -/
def hex8 (n : UInt32) : Bytes :=
  (List.range 8).map fun i => lowerHexDigit (n.toNat / 16 ^ (7 - i) % 16)

/-- `s_registry`. -/
structure Registry where
  propsById : List (PropId × PropertyInfo)
  propsByName : List (Bytes × PropertyInfo)

namespace Registry

def empty : Registry := ⟨[], []⟩

/-- `registerProperty`, with the text of the exception it may throw. -/
def registerProperty (reg : Registry) (pi : PropertyInfo) : Except Bytes Unit × Registry :=
  if (UnorderedMap.find reg.propsById pi.id).isSome then
    (.error (ascii "Property with ID " ++ hex8 pi.id ++ ascii " already registered"), reg)
  else
    let reg := { reg with propsById := UnorderedMap.insert reg.propsById pi.id pi }
    if (UnorderedMap.find reg.propsByName pi.idstr.bytes).isSome then
      (.error (ascii "Property with ID " ++ pi.idstr.bytes ++ ascii " already registered"), reg)
    else
      (.ok (), { reg with propsByName := UnorderedMap.insert reg.propsByName pi.idstr.bytes pi })

/-- `lookupProperty(PropId)`. -/
def lookupId (reg : Registry) (id : PropId) : Option PropertyInfo := UnorderedMap.find reg.propsById id

/-- `lookupProperty(const char*)`. -/
def lookupName (reg : Registry) (id : CString) : Option PropertyInfo :=
  UnorderedMap.find reg.propsByName id.bytes

/-- A property that both lookups find. -/
def Registered (reg : Registry) (pi : PropertyInfo) : Prop :=
  reg.lookupId pi.id = some pi ∧ reg.lookupName pi.idstr = some pi

/-! ## Registering -/

/-- A registration that does not throw makes the property known and leaves what was known
before. -/
theorem registerProperty_ok {reg reg' : Registry} {pi : PropertyInfo}
    (h : reg.registerProperty pi = (.ok (), reg')) :
    reg'.Registered pi ∧ ∀ other, reg.Registered other → reg'.Registered other := by
  unfold registerProperty at h
  split at h
  · cases h
  · rename_i hId
    dsimp only at h
    split at h
    · cases h
    · rename_i hName
      obtain ⟨-, rfl⟩ := Prod.mk.inj h
      rw [Option.not_isSome_iff_eq_none] at hId hName
      constructor
      · simp [Registered, lookupId, lookupName, UnorderedMap.find_insert, hId, hName]
      · rintro other ⟨h1, h2⟩
        rw [lookupId] at h1
        rw [lookupName] at h2
        simp [Registered, lookupId, lookupName, UnorderedMap.find_insert, h1, h2]

end Registry

end Kexplorer.Props

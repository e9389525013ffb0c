import Mathlib.Data.List.Nodup
import Mathlib.Logic.Equiv.Basic

/-!
# Custody

Some owners hold at most one asset each.  Assets are given to them, handed over
between them and released, and the books say which ones have been given and
which have been released.

`Balanced` says that the books agree with what is held.  It is kept by
`Balanced.replace`, for an owner that releases what it holds and takes a new
asset or none, and by `Balanced.permute`, for owners that exchange what they
hold.
-/

namespace Kexplorer.Lib

variable {O A : Type*}

/-- Every asset that has been given is either held, by one owner, or has been released, once. -/
structure Balanced (held : O → Option A) (released given : List A) : Prop where
  exclusive : ∀ {o o' a}, held o = some a → held o' = some a → o = o'
  recorded : ∀ {o a}, held o = some a → a ∈ given
  unreleased : ∀ {o a}, held o = some a → a ∉ released
  once : released.Nodup
  taken : ∀ {a}, a ∈ released → a ∈ given
  complete : ∀ {a}, a ∈ given → (∃ o, held o = some a) ∨ a ∈ released

namespace Balanced

theorem empty : Balanced (fun _ : O => (none : Option A)) [] [] where
  exclusive h := by cases h
  recorded h := by cases h
  unreleased h := by cases h
  once := List.nodup_nil
  taken h := h
  complete h := by cases h

variable {held : O → Option A} {released given : List A}

/-- Owners exchange what they hold. -/
theorem permute (h : Balanced held released given) (e : Equiv.Perm O) :
    Balanced (held ∘ e) released given where
  exclusive ho ho' := e.injective (h.exclusive ho ho')
  recorded ho := h.recorded ho
  unreleased ho := h.unreleased ho
  once := h.once
  taken ha := h.taken ha
  complete ha := by
    rcases h.complete ha with ⟨o, ho⟩ | hReleased
    · exact .inl ⟨e.symm o, by rwa [Function.comp_apply, Equiv.apply_symm_apply]⟩
    · exact .inr hReleased

theorem update_eq_some [DecidableEq O] {o o' : O} {a : Option A} {x : A}
    (h : Function.update held o a o' = some x) :
    (o' = o ∧ a = some x) ∨ (o' ≠ o ∧ held o' = some x) := by
  by_cases hOwner : o' = o
  · subst hOwner
    rw [Function.update_self] at h
    exact .inl ⟨rfl, h⟩
  · rw [Function.update_of_ne hOwner] at h
    exact .inr ⟨hOwner, h⟩

/-- An owner releases what it holds and takes a new asset or none. -/
theorem replace [DecidableEq O] (h : Balanced held released given) (o : O) {a : Option A}
    (hNew : ∀ x, a = some x → x ∉ given) :
    Balanced (Function.update held o a) (released ++ (held o).toList) (given ++ a.toList) where
  exclusive {o₁ o₂ x} h₁ h₂ := by
    rcases update_eq_some h₁ with ⟨rfl, hx₁⟩ | ⟨-, ho₁⟩
    · rcases update_eq_some h₂ with ⟨rfl, -⟩ | ⟨-, ho₂⟩
      · rfl
      · exact absurd (h.recorded ho₂) (hNew x hx₁)
    · rcases update_eq_some h₂ with ⟨rfl, hx₂⟩ | ⟨-, ho₂⟩
      · exact absurd (h.recorded ho₁) (hNew x hx₂)
      · exact h.exclusive ho₁ ho₂
  recorded ho := by
    rcases update_eq_some ho with ⟨-, rfl⟩ | ⟨-, ho⟩
    · exact List.mem_append_right _ (List.mem_singleton_self _)
    · exact List.mem_append_left _ (h.recorded ho)
  unreleased {o' x} ho' hReleased := by
    rw [List.mem_append, Option.mem_toList] at hReleased
    rcases update_eq_some ho' with ⟨-, hx⟩ | ⟨hNe, ho'⟩
    · rcases hReleased with hReleased | ho
      · exact hNew x hx (h.taken hReleased)
      · exact hNew x hx (h.recorded ho)
    · rcases hReleased with hReleased | ho
      · exact h.unreleased ho' hReleased
      · exact hNe (h.exclusive ho' ho)
  once := by
    rw [List.nodup_append]
    refine ⟨h.once, ?_, ?_⟩
    · cases held o <;> simp
    · rintro x hReleased y hy rfl
      exact h.unreleased (Option.mem_toList.mp hy) hReleased
  taken {x} hx := by
    rcases List.mem_append.mp hx with hReleased | ho
    · exact List.mem_append_left _ (h.taken hReleased)
    · exact List.mem_append_left _ (h.recorded (Option.mem_toList.mp ho))
  complete {x} hx := by
    rcases List.mem_append.mp hx with hGiven | hTaken
    · rcases h.complete hGiven with ⟨o', ho'⟩ | hReleased
      · by_cases hOwner : o' = o
        · subst hOwner
          exact .inr (List.mem_append_right _ (Option.mem_toList.mpr ho'))
        · exact .inl ⟨o', by rwa [Function.update_of_ne hOwner]⟩
      · exact .inr (List.mem_append_left _ hReleased)
    · exact .inl ⟨o, by rw [Function.update_self, Option.mem_toList.mp hTaken]⟩

/-- An asset that has been given is in one place. -/
theorem held_or_released [DecidableEq A] (h : Balanced held released given) {a : A}
    (ha : a ∈ given) :
    ((∃! o, held o = some a) ∧ released.count a = 0) ∨
      ((∀ o, held o ≠ some a) ∧ released.count a = 1) := by
  rcases h.complete ha with ⟨o, ho⟩ | hReleased
  · refine .inl ⟨⟨o, ho, fun o' ho' => h.exclusive ho' ho⟩, ?_⟩
    exact List.count_eq_zero.mpr (h.unreleased ho)
  · refine .inr ⟨fun o ho => h.unreleased ho hReleased, ?_⟩
    exact List.count_eq_one_of_mem h.once hReleased

end Balanced

end Kexplorer.Lib

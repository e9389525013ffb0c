import Mathlib.Algebra.GroupWithZero.Nat
import Mathlib.Data.List.Forall2

/-!
# Lists whose elements are related

Two lists are related if their elements are, one by one.  What is shown of related
elements may rest on where they are from (`imp_forall₂`), so that an induction over
a tree has its hypotheses for the elements of a list.

`AtKey` relates the entries of two maps.
-/

namespace Kexplorer.Lib

/-- Two entries with the same key. -/
inductive AtKey {κ α : Type} (R : α → α → Prop) : κ × α → κ × α → Prop
  | mk {k : κ} {a b : α} : R a b → AtKey R (k, a) (k, b)

theorem AtKey.fst_eq {κ α : Type} {R : α → α → Prop} {m m' : κ × α} (h : AtKey R m m') :
    m.1 = m'.1 := by
  cases h
  rfl

theorem AtKey.snd {κ α : Type} {R : α → α → Prop} {m m' : κ × α} (h : AtKey R m m') :
    R m.2 m'.2 := by
  cases h
  assumption

variable {α β γ : Type} {R : α → β → Prop} {xs : List α} {ys : List β}

/-! ## Another relation -/

theorem imp_forall₂ {S : α → β → Prop} (h : List.Forall₂ R xs ys)
    (hImp : ∀ x ∈ xs, ∀ y, R x y → S x y) : List.Forall₂ S xs ys := by
  have hMem : List.Forall₂ (fun x y => x ∈ xs ∧ R x y) xs ys :=
    (List.forall₂_and_left xs ys).mpr ⟨fun _ hx => hx, h⟩
  exact hMem.imp fun x y hBoth => hImp x hBoth.1 y hBoth.2

/-- Related lists are mapped to related lists. -/
theorem map_forall₂ {α' β' : Type} {R' : α' → β' → Prop} {f : α → α'} {g : β → β'}
    (h : List.Forall₂ R xs ys) (hR : ∀ x ∈ xs, ∀ y, R x y → R' (f x) (g y)) :
    List.Forall₂ R' (xs.map f) (ys.map g) := by
  rw [List.forall₂_map_left_iff, List.forall₂_map_right_iff]
  exact imp_forall₂ h hR

theorem flip_forall₂ {S : β → α → Prop} (h : List.Forall₂ R xs ys)
    (hR : ∀ x ∈ xs, ∀ y, R x y → S y x) : List.Forall₂ S ys xs := by
  have hFlip : List.Forall₂ (flip S) xs ys := imp_forall₂ h hR
  exact hFlip.flip

theorem comp_forall₂ {S : β → γ → Prop} {T : α → γ → Prop} {zs : List γ}
    (h : List.Forall₂ R xs ys) (h' : List.Forall₂ S ys zs)
    (hT : ∀ x ∈ xs, ∀ y z, R x y → S y z → T x z) : List.Forall₂ T xs zs := by
  induction h generalizing zs with
  | nil =>
      cases h'
      exact .nil
  | cons hHead _ ih =>
      cases h' with
      | cons hHead' hTail' =>
          exact .cons (hT _ List.mem_cons_self _ _ hHead hHead')
            (ih hTail' fun x hx => hT x (List.mem_cons_of_mem _ hx))

/-! ## The elements -/

theorem exists_of_forall₂ (h : List.Forall₂ R xs ys) {y : β} (hy : y ∈ ys) : ∃ x ∈ xs, R x y := by
  induction h with
  | nil => cases hy
  | cons hHead _ ih =>
      rcases List.mem_cons.mp hy with rfl | hy
      · exact ⟨_, List.mem_cons_self, hHead⟩
      · obtain ⟨x, hx, hR⟩ := ih hy
        exact ⟨x, List.mem_cons_of_mem _ hx, hR⟩

/-- What holds of one of two related lists holds of the other. -/
theorem forall_mem_of_forall₂ {P : α → Prop} {Q : β → Prop} (h : List.Forall₂ R xs ys)
    (hR : ∀ x ∈ xs, ∀ y, R x y → P x → Q y) (hP : ∀ x ∈ xs, P x) : ∀ y ∈ ys, Q y := by
  intro y hy
  obtain ⟨x, hx, hBoth⟩ := exists_of_forall₂ h hy
  exact hR x hx y hBoth (hP x hx)

/-- Conditions that agree on related elements hold of all of them or not. -/
theorem forall_mem_iff_of_forall₂ {P : α → Prop} {Q : β → Prop} (h : List.Forall₂ R xs ys)
    (hIff : ∀ x ∈ xs, ∀ y, R x y → (P x ↔ Q y)) : (∀ x ∈ xs, P x) ↔ ∀ y ∈ ys, Q y := by
  induction h with
  | nil => simp
  | cons hHead _ ih =>
      rw [List.forall_mem_cons, List.forall_mem_cons, hIff _ List.mem_cons_self _ hHead,
        ih fun x hx => hIff x (List.mem_cons_of_mem _ hx)]

/-- Three relations around three lists. -/
theorem forall_of_forall₂ {S : β → γ → Prop} {T : α → γ → Prop} {zs : List γ}
    (hR : List.Forall₂ R xs ys) (hS : List.Forall₂ S ys zs) (hT : List.Forall₂ T xs zs) :
    ∀ x ∈ xs, ∃ y z, R x y ∧ S y z ∧ T x z := by
  induction hR generalizing zs with
  | nil => simp
  | cons hHead _ ih =>
      cases hS with
      | cons hHead' hTail' =>
          cases hT with
          | cons hHead'' hTail'' =>
              exact List.forall_mem_cons.mpr ⟨⟨_, _, hHead, hHead', hHead''⟩, ih hTail' hTail''⟩

/-! ## Images and sums -/

/-- Related lists have images that are the same. -/
theorem map_eq_of_forall₂ {f : α → γ} {g : β → γ} (h : List.Forall₂ R xs ys)
    (hEq : ∀ x ∈ xs, ∀ y, R x y → f x = g y) : xs.map f = ys.map g := by
  have hMap : List.Forall₂ Eq (xs.map f) (ys.map g) := map_forall₂ h hEq
  rwa [List.forall₂_eq_eq_eq] at hMap

theorem keys_eq_of_atKey {κ : Type} {R : α → α → Prop} {xs ys : List (κ × α)}
    (h : List.Forall₂ (AtKey R) xs ys) : xs.map Prod.fst = ys.map Prod.fst :=
  map_eq_of_forall₂ h fun _ _ _ hAt => hAt.fst_eq

end Kexplorer.Lib

import Mathlib.Data.List.Basic

/-!
# Writing at a position

A file that is written at a position: what was there is replaced, and what was
missing before the position is filled up.  Nothing is filled up for the sake of
an empty write.
-/

namespace Kexplorer.Lib

variable {α : Type*}

/-- The contents after some elements were written at a position. -/
def writeAt (fill : α) (contents : List α) (position : Nat) (elements : List α) : List α :=
  if elements.isEmpty then contents
  else contents.take position ++ List.replicate (position - contents.length) fill ++ elements ++
    contents.drop (position + elements.length)

@[simp] theorem writeAt_nil (fill : α) (contents : List α) (position : Nat) :
    writeAt fill contents position [] = contents :=
  rfl

theorem writeAt_of_ne_nil (fill : α) (contents : List α) (position : Nat) {elements : List α}
    (h : elements ≠ []) :
    writeAt fill contents position elements =
      contents.take position ++ List.replicate (position - contents.length) fill ++ elements ++
        contents.drop (position + elements.length) := by
  rw [writeAt, if_neg (by simpa using h)]

/-- A write at the end appends. -/
theorem writeAt_length (fill : α) (contents elements : List α) :
    writeAt fill contents contents.length elements = contents ++ elements := by
  by_cases h : elements = []
  · simp [h]
  · simp [writeAt_of_ne_nil fill contents _ h]

/-- A write to an empty file. -/
theorem writeAt_empty (fill : α) (position : Nat) {elements : List α} (h : elements ≠ []) :
    writeAt fill [] position elements = List.replicate position fill ++ elements := by
  simp [writeAt_of_ne_nil fill [] position h]

/-- What precedes the elements of a write is as long as their position says. -/
theorem length_before (fill : α) (contents : List α) (position : Nat) :
    (contents.take position ++ List.replicate (position - contents.length) fill).length =
      position := by
  rw [List.length_append, List.length_take, List.length_replicate]
  omega

/-- Two writes, the second where the first has ended, are one. -/
theorem writeAt_append (fill : α) (contents : List α) (position : Nat) (elements more : List α) :
    writeAt fill (writeAt fill contents position elements) (position + elements.length) more =
      writeAt fill contents position (elements ++ more) := by
  by_cases hFirst : elements = []
  · simp [hFirst]
  by_cases hMore : more = []
  · simp [hMore]
  have hBoth : elements ++ more ≠ [] := by simp [hFirst]
  rw [writeAt_of_ne_nil fill _ _ hMore, writeAt_of_ne_nil fill contents _ hFirst,
    writeAt_of_ne_nil fill contents _ hBoth]
  -- The first write ends where the second starts, so nothing is filled up between them.
  have hBefore := length_before fill contents position
  generalize contents.take position ++ List.replicate (position - contents.length) fill = before
    at hBefore ⊢
  subst hBefore
  simp [List.take_append, List.drop_append, List.take_of_length_le, List.drop_eq_nil_of_le,
    Nat.add_assoc]

end Kexplorer.Lib

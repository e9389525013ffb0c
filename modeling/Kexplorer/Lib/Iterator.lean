import Mathlib.Data.List.Basic

/-!
# Iterators into a node-based container

A container whose elements sit in nodes of their own, listed in the order in
which an iteration visits them.  Erasing an element invalidates the iterators
to it and no others; an invalid iterator can neither be compared, read,
advanced nor erased.

Every operation that the rules of the container leave undefined is `none`.
-/

namespace Kexplorer.Lib

/-- An iterator together with the container: it is at the first element of `after`, or is
`end()`; or the element it was at has been erased. -/
inductive Iterator (α : Type*)
  | valid (before after : List α)
  | invalid (elements : List α)
  deriving DecidableEq

namespace Iterator

variable {α : Type*}

/-- `begin()`. -/
def begin (elements : List α) : Iterator α := .valid [] elements

/-- The elements of the container. -/
def elements : Iterator α → List α
  | .valid before after => before ++ after
  | .invalid elements => elements

/-- `it == end()`. -/
def atEnd : Iterator α → Option Bool
  | .valid _ after => some after.isEmpty
  | .invalid _ => none

/-- `*it`. -/
def get : Iterator α → Option α
  | .valid _ after => after.head?
  | .invalid _ => none

/-- `++it`. -/
def next : Iterator α → Option (Iterator α)
  | .valid before (a :: after) => some (.valid (before ++ [a]) after)
  | _ => none

/-- What `erase(it)` makes of `it`. -/
def erase : Iterator α → Option (Iterator α)
  | .valid before (_ :: after) => some (.invalid (before ++ after))
  | _ => none

/-- How many elements are still to be visited. -/
def remaining : Iterator α → Nat
  | .valid _ after => after.length
  | .invalid _ => 0

theorem remaining_next {it it' : Iterator α} (h : it.next = some it') :
    it'.remaining < it.remaining := by
  unfold next at h
  split at h
  · cases h
    exact Nat.lt_succ_self _
  · cases h

theorem remaining_erase {it it' : Iterator α} (h : it.erase = some it') :
    it'.remaining ≤ it.remaining := by
  unfold erase at h
  split at h
  · cases h
    exact Nat.zero_le _
  · cases h

end Iterator

end Kexplorer.Lib

import Kexplorer.Server.Dispatch

/-!
# The lifetimes of the handlers

A handler registers itself in its constructor, once for each of its commands, and takes
that back in its destructor.  The request processor keeps the address only.  Any number of
handlers may come and go, and come again at the same address, each on a thread of its own, so
that their calls mix in any way.

`count_equalRange_of_lives` says that the processor knows a handler from its constructor to its
destructor and not beyond.
-/

namespace Kexplorer.Server.RequestProcessor

open Kexplorer.Util

variable {η : Type}

namespace Registration

/-- The handler that makes a call. -/
def handler : Registration η → η
  | .registerHandler _ handler => handler
  | .unregisterHandler _ handler => handler

/-- The loop over `s_commands` in a constructor. -/
def constructor (commands : List CString) (self : η) : List (Registration η) :=
  commands.map fun cmd => .registerHandler cmd self

/-- The loop over `s_commands` in a destructor. -/
def destructor (commands : List CString) (self : η) : List (Registration η) :=
  commands.map fun cmd => .unregisterHandler cmd self

/-- What was called from an address where handlers with these commands have lived one after the
other, and one lives now or none does. -/
def lives (earlier : List (List CString)) (self : η) (living : Option (List CString)) :
    List (Registration η) :=
  (earlier.flatMap fun commands => constructor commands self ++ destructor commands self) ++
    living.elim [] fun commands => constructor commands self

variable [DecidableEq η] {self : η} {key : Bytes}

/-- The calls of others do not count. -/
theorem foldl_counted_filter (key : Bytes) (self : η) (history : List (Registration η)) :
    ∀ n, history.foldl (counted key self) n =
      (history.filter fun call => call.handler = self).foldl (counted key self) n := by
  induction history with
  | nil => exact fun _ => rfl
  | cons call history ih =>
      intro n
      by_cases hSelf : call.handler = self
      · rw [List.filter_cons_of_pos (by simpa using hSelf)]
        exact ih _
      · have hSame : counted key self n call = n := by
          cases call with
          | registerHandler k h => exact if_neg fun hBoth => hSelf hBoth.2
          | unregisterHandler k h => exact if_neg fun hBoth => hSelf hBoth.2
        rw [List.filter_cons_of_neg (by simpa using hSelf), List.foldl_cons, hSame]
        exact ih n

theorem foldl_counted_constructor (commands : List CString) :
    ∀ n, (constructor commands self).foldl (counted key self) n =
      n + (commands.map CString.bytes).count key := by
  induction commands with
  | nil => exact fun _ => rfl
  | cons cmd commands ih =>
      intro n
      have hRest := ih (counted key self n (.registerHandler cmd self))
      refine hRest.trans ?_
      rw [List.map_cons, List.count_cons, counted]
      by_cases hKey : cmd.bytes = key
      · simp only [hKey, and_self, if_true, BEq.rfl]
        omega
      · simp [hKey]

theorem foldl_counted_destructor (commands : List CString) :
    ∀ n, (destructor commands self).foldl (counted key self) n =
      n - (commands.map CString.bytes).count key := by
  induction commands with
  | nil => exact fun _ => rfl
  | cons cmd commands ih =>
      intro n
      have hRest := ih (counted key self n (.unregisterHandler cmd self))
      refine hRest.trans ?_
      rw [List.map_cons, List.count_cons, counted]
      by_cases hKey : cmd.bytes = key
      · simp only [hKey, and_self, if_true, BEq.rfl]
        omega
      · simp [hKey]

/-- The destructors take back what the constructors before them have done. -/
theorem foldl_counted_lives (earlier : List (List CString)) (living : Option (List CString)) :
    (lives earlier self living).foldl (counted key self) 0 =
      living.elim 0 fun commands => (commands.map CString.bytes).count key := by
  have hGone : (earlier.flatMap fun commands => constructor commands self ++
      destructor commands self).foldl (counted key self) 0 = 0 := by
    induction earlier with
    | nil => rfl
    | cons commands earlier ih =>
        rw [List.flatMap_cons, List.foldl_append, List.foldl_append, foldl_counted_constructor,
          foldl_counted_destructor, Nat.zero_add, Nat.sub_self]
        exact ih
  rw [lives, List.foldl_append, hGone]
  cases living with
  | none => rfl
  | some commands => exact (foldl_counted_constructor commands 0).trans (Nat.zero_add _)

end Registration

/-- Whatever the others call in between, a request reaches the handler that lives at an address, as
often as the command is among its own, and no handler that has lived there before. -/
theorem count_equalRange_of_lives [DecidableEq η] {history : List (Registration η)}
    {rp : RequestProcessor η} (hAfter : After history rp) {earlier : List (List CString)} {self : η}
    {living : Option (List CString)}
    (hOwn : history.filter (fun call => call.handler = self) =
      Registration.lives earlier self living) (key : Bytes) :
    (rp.equalRange key).count self =
      living.elim 0 fun commands => (commands.map CString.bytes).count key := by
  rw [count_equalRange, hAfter.count_handlers, registrations, Registration.foldl_counted_filter,
    hOwn, Registration.foldl_counted_lives]

/-- A handler is gone while another one lives, and a third one with another command comes at its
address. -/
def overlapping : List (Registration Bool) :=
  [.registerHandler (literal "stop") true, .registerHandler (literal "stop") false,
    .unregisterHandler (literal "stop") true, .registerHandler (literal "go") true]

theorem after_overlapping :
    After overlapping ⟨[(ascii "go", true), (ascii "stop", false)]⟩ := by
  have hFirst : After [.registerHandler (literal "stop") true] ⟨[(ascii "stop", true)]⟩ :=
    .snoc .nil (List.Perm.refl _)
  have hBoth : After
      [.registerHandler (literal "stop") true, .registerHandler (literal "stop") false]
      ⟨[(ascii "stop", false), (ascii "stop", true)]⟩ := .snoc hFirst (List.Perm.refl _)
  have hGone : After
      [.registerHandler (literal "stop") true, .registerHandler (literal "stop") false,
        .unregisterHandler (literal "stop") true]
      ⟨[(ascii "stop", false)]⟩ := .snoc hBoth rfl
  exact .snoc hGone (List.Perm.refl _)

theorem count_equalRange_of_lives_overlapping :
    (equalRange ⟨[(ascii "go", true), (ascii "stop", false)]⟩ (ascii "stop")).count true = 0 ∧
      (equalRange ⟨[(ascii "go", true), (ascii "stop", false)]⟩ (ascii "go")).count true = 1 ∧
      (equalRange ⟨[(ascii "go", true), (ascii "stop", false)]⟩ (ascii "stop")).count false =
        1 := by
  have hAgain : overlapping.filter (fun call => call.handler = true) =
      Registration.lives [[literal "stop"]] true (some [literal "go"]) := rfl
  have hOther : overlapping.filter (fun call => call.handler = false) =
      Registration.lives [] false (some [literal "stop"]) := rfl
  exact ⟨count_equalRange_of_lives after_overlapping hAgain _,
    count_equalRange_of_lives after_overlapping hAgain _,
    count_equalRange_of_lives after_overlapping hOther _⟩

end Kexplorer.Server.RequestProcessor

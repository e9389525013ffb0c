import Kexplorer.Lib.Run
import Kexplorer.Process.ReadStat

/-!
# The loops of the stat record

The two nested loops of `ProcFs::readStat` as a machine that takes one step after
the other: `start`, `end` and `index` are any numbers here, and every access to
the line is checked.  The line has a terminator, which may be read, and a pointer
to it may be passed on.

`scan_stays_inside` says that no check fails, and that the loops come to the end
that `scan` says.
-/

namespace Kexplorer.Process

open Kexplorer.Lib Kexplorer.Util

/-- Accesses that a line does not allow. -/
inductive Misuse where
  /-- A position behind the terminator. -/
  | outside
  /-- A range that ends before it starts. -/
  | backwards
  deriving DecidableEq

/-- Where the loops are. -/
inductive Point where
  /-- At the condition of the outer loop. -/
  | outer
  /-- At the condition of the inner one. -/
  | inner
  /-- Behind the inner one. -/
  | field
  /-- Behind the outer one. -/
  | finished
  /-- At the early return. -/
  | rejected
  deriving DecidableEq

/-- The local variables of the loops. -/
structure Scanner where
  point : Point
  start : Nat
  stop : Nat
  index : Nat
  result : Stat

namespace Scanner

/-- Before the first iteration. -/
def first (result : Stat) : Scanner := ⟨.outer, 0, 0, 0, result⟩

/-- What the loops have come to, once they are left. -/
def outcome (m : Scanner) : Option (Except Stat Stat) :=
  match m.point with
  | .finished => some (.ok m.result)
  | .rejected => some (.error m.result)
  | _ => none

/-- At the top of the outer loop `end` is at `start` or one behind it, and `start` is not behind the
terminator. -/
def AtTop (m : Scanner) (s : Bytes) : Prop :=
  m.point = .outer → m.start ≤ m.stop ∧ m.stop ≤ m.start + 1 ∧ m.start ≤ s.length

end Scanner

/-- `*p`. -/
def fetch (s : Bytes) (i : Nat) : Except Misuse UInt8 :=
  if i ≤ s.length then .ok (byteAt s i) else .error .outside

/-- The C string that `p` points to. -/
def pointee (s : Bytes) (i : Nat) : Except Misuse Bytes :=
  if i ≤ s.length then .ok (s.drop i) else .error .outside

/-- The characters of a range. -/
def range (s : Bytes) (first last : Nat) : Except Misuse Bytes :=
  if last < first then .error .backwards
  else if last ≤ s.length then .ok (s.extract first last)
  else .error .outside

namespace Host

variable {Double : Type} (host : Host Double)

/-- The `switch`, with its accesses.  There is no case from 52 on. -/
def storeChecked (s : Bytes) (index start stop : Nat) (result : Stat) : Except Misuse Stat :=
  match index with
  | 0 => do
      let text ← pointee s start
      .ok { result with pid := (strtol text).toInt32 }
  | 1 =>
      if start + 3 < stop then do
        let comm ← range s (start + 2) (stop - 1)
        .ok { result with comm := comm }
      else .ok result
  | 2 => do
      let state ← fetch s (start + 1)
      .ok { result with state := state }
  | _ =>
      if index ≤ 51 then do
        let text ← pointee s (start + 1)
        .ok (host.storeNumber index text result)
      else .ok result

/-- The outer loop's condition; the pointer to the end of the line is `s.length`. -/
def atOuter (s : Bytes) (m : Scanner) : Scanner :=
  if m.start < s.length then { m with point := .inner } else { m with point := .finished }

/-- The early return. -/
def reject (m : Scanner) : Scanner :=
  { m with
    point := .rejected
    result := { m.result with error := ascii "Invalid process stat record" } }

/-- The jump to the last closing parenthesis, and behind it. -/
def atOpen (s : Bytes) (m : Scanner) : Except Misuse Scanner := do
  let text ← pointee s m.stop
  match strrchr text 0x29 with
  | none => .ok (reject m)
  | some i =>
      let close ← fetch s (m.stop + i)
      if close = 0 then .ok (reject m) else .ok { m with stop := m.stop + i + 1 }

/-- One iteration of the inner loop, or its end. -/
def atInner (s : Bytes) (m : Scanner) : Except Misuse Scanner :=
  if m.stop < s.length then do
    let c ← fetch s m.stop
    if c ≠ 0 ∧ isspace c = false then
      if c = 0x28 then atOpen s m else .ok { m with stop := m.stop + 1 }
    else
      .ok { m with point := .field }
  else
    .ok { m with point := .field }

/-- The rest of the outer loop's body. -/
def atField (s : Bytes) (m : Scanner) : Except Misuse Scanner := do
  let result ←
    if m.start < m.stop then host.storeChecked s m.index m.start m.stop m.result
    else .ok m.result
  .ok ⟨.outer, m.stop, m.stop + 1, m.index + 1, result⟩

/-- From one point to the next. -/
def scanStep (s : Bytes) (m : Scanner) : Except Misuse Scanner :=
  match m.point with
  | .outer => .ok (atOuter s m)
  | .inner => atInner s m
  | .field => host.atField s m
  | .finished => .ok m
  | .rejected => .ok m

/-! ## The accesses -/

theorem fetch_of_le {s : Bytes} {i : Nat} (h : i ≤ s.length) : fetch s i = .ok (byteAt s i) :=
  if_pos h

theorem pointee_of_le {s : Bytes} {i : Nat} (h : i ≤ s.length) : pointee s i = .ok (s.drop i) :=
  if_pos h

theorem range_of_le {s : Bytes} {first last : Nat} (hFirst : first ≤ last)
    (hLast : last ≤ s.length) : range s first last = .ok (s.extract first last) := by
  rw [range, if_neg (Nat.not_lt.mpr hFirst), if_pos hLast]

/-- The cases stay inside the line. -/
theorem storeChecked_eq {s : Bytes} {start stop : Nat} (index : Nat) (hStart : start < s.length)
    (hStop : stop ≤ s.length) (result : Stat) :
    host.storeChecked s index start stop result = .ok (host.store s index start stop result) := by
  have hNext : start + 1 ≤ s.length := hStart
  rcases index with _ | _ | _ | n
  · rw [storeChecked, pointee_of_le (Nat.le_of_lt hStart)]
    rfl
  · rw [storeChecked, store]
    by_cases hLong : start + 3 < stop
    · rw [if_pos hLong, if_pos hLong, range_of_le (by omega) (by omega)]
      rfl
    · rw [if_neg hLong, if_neg hLong]
  · rw [storeChecked, fetch_of_le hNext]
    rfl
  · rw [storeChecked, pointee_of_le hNext]
    · by_cases hCase : n + 3 ≤ 51
      · rw [if_pos hCase]
        rfl
      · rw [if_neg hCase]
        exact congrArg _ (storeNumber_of_le (by omega) _ _).symm
    all_goals omega

theorem atField_eq {s : Bytes} {m : Scanner} (hStart : m.start < s.length)
    (hStop : m.stop ≤ s.length) :
    host.atField s m =
      .ok ⟨.outer, m.stop, m.stop + 1, m.index + 1,
        if m.start < m.stop then host.store s m.index m.start m.stop m.result else m.result⟩ := by
  by_cases hField : m.start < m.stop
  · rw [atField, if_pos hField, if_pos hField, host.storeChecked_eq _ hStart hStop]
    rfl
  · rw [atField, if_neg hField, if_neg hField]
    rfl

/-! ## The inner loop -/

theorem strrchr_lt {s : Bytes} {stop i : Nat} {c : UInt8}
    (h : strrchr (s.drop stop) c = some i) : stop + i < s.length := by
  have hIndex := lt_of_lastIndexOf_eq_some h
  have hPrefix : (cstr (s.drop stop)).length ≤ (s.drop stop).length :=
    (List.takeWhile_prefix _).length_le
  rw [List.length_drop] at hPrefix
  omega

/-- What the inner loop does with an opening parenthesis. -/
theorem atOpen_cases {s : Bytes} {m : Scanner} (hStop : m.stop < s.length)
    (hText : byteAt s m.stop ≠ 0 ∧ isspace (byteAt s m.stop) = false)
    (hOpen : byteAt s m.stop = 0x28) :
    (atOpen s m = .ok (reject m) ∧ fieldEnd s m.stop = none) ∨
      ∃ stop, m.stop < stop ∧ stop ≤ s.length ∧ atOpen s m = .ok { m with stop := stop } ∧
        fieldEnd s m.stop = fieldEnd s stop := by
  rw [fieldEnd, if_pos ⟨hStop, hText⟩, if_pos hOpen, atOpen, pointee_of_le (Nat.le_of_lt hStop)]
  rcases hLast : strrchr (s.drop m.stop) 0x29 with _ | i
  · refine .inl ⟨?_, rfl⟩
    simp only [bind, Except.bind, hLast]
  · have hLt := strrchr_lt hLast
    by_cases hNul : byteAt s (m.stop + i) = 0
    · refine .inl ⟨?_, if_pos hNul⟩
      simp only [bind, Except.bind, hLast, fetch_of_le (Nat.le_of_lt hLt), if_pos hNul]
    · refine .inr ⟨m.stop + i + 1, by omega, hLt, ?_, if_neg hNul⟩
      simp only [bind, Except.bind, hLast, fetch_of_le (Nat.le_of_lt hLt), if_neg hNul]

/-- What an iteration of the inner loop can do. -/
theorem atInner_cases {s : Bytes} {m : Scanner} (hStop : m.stop ≤ s.length) :
    (atInner s m = .ok { m with point := .field } ∧ fieldEnd s m.stop = some m.stop) ∨
      (atInner s m = .ok (reject m) ∧ fieldEnd s m.stop = none) ∨
      ∃ stop, m.stop < stop ∧ stop ≤ s.length ∧ atInner s m = .ok { m with stop := stop } ∧
        fieldEnd s m.stop = fieldEnd s stop := by
  by_cases hEnd : m.stop < s.length
  · by_cases hText : byteAt s m.stop ≠ 0 ∧ isspace (byteAt s m.stop) = false
    · by_cases hOpen : byteAt s m.stop = 0x28
      · have hOpened : atInner s m = atOpen s m := by
          rw [atInner, if_pos hEnd, fetch_of_le hStop]
          exact (if_pos hText).trans (if_pos hOpen)
        rw [hOpened]
        exact .inr (atOpen_cases hEnd hText hOpen)
      · refine .inr (.inr ⟨m.stop + 1, Nat.lt_succ_self _, hEnd, ?_, ?_⟩)
        · rw [atInner, if_pos hEnd, fetch_of_le hStop]
          exact (if_pos hText).trans (if_neg hOpen)
        · rw [fieldEnd, if_pos ⟨hEnd, hText⟩, if_neg hOpen]
    · refine .inl ⟨?_, ?_⟩
      · rw [atInner, if_pos hEnd, fetch_of_le hStop]
        exact if_neg hText
      · rw [fieldEnd, if_neg fun h => hText h.2]
  · rw [atInner, if_neg hEnd, fieldEnd, if_neg fun h => hEnd h.1]
    exact .inl ⟨rfl, rfl⟩

/-! ## The invariant -/

/-- What `scan` makes of the end of a field. -/
def resume (s : Bytes) (c : Cursor) (result : Stat) (stop : Option Nat) : Except Stat Stat :=
  stop.elim (.error { result with error := ascii "Invalid process stat record" }) fun stop =>
    host.scan s (c.next stop)
      (if c.start < stop then host.store s c.index c.start stop result else result)

theorem scan_eq_resume {s : Bytes} {c : Cursor} (hStart : c.start < s.length) (result : Stat) :
    host.scan s c result = host.resume s c result (fieldEnd s c.stop) := by
  rw [scan, if_pos hStart]
  split
  next hEnd =>
    rw [hEnd]
    rfl
  next hEnd =>
    rw [hEnd]
    rfl

/-- The variables are inside the line, and what is still to be done leads to the result.  Inside
the outer loop `c` is the cursor that its top was passed with. -/
inductive Sound (s : Bytes) (target : Except Stat Stat) : Scanner → Prop
  | outer (c : Cursor) {result : Stat} (hLe : c.start ≤ s.length)
      (hTarget : host.scan s c result = target) :
      Sound s target ⟨.outer, c.start, c.stop, c.index, result⟩
  | inner (c : Cursor) {stop : Nat} {result : Stat} (hStart : c.start < s.length)
      (hStop : stop ≤ s.length)
      (hTarget : host.resume s c result (fieldEnd s stop) = target) :
      Sound s target ⟨.inner, c.start, stop, c.index, result⟩
  | field (c : Cursor) {stop : Nat} {result : Stat} (hStart : c.start < s.length)
      (hStop : stop ≤ s.length) (hTarget : host.resume s c result (some stop) = target) :
      Sound s target ⟨.field, c.start, stop, c.index, result⟩
  | finished {start stop index : Nat} {result : Stat} (hTarget : .ok result = target) :
      Sound s target ⟨.finished, start, stop, index, result⟩
  | rejected {start stop index : Nat} {result : Stat} (hTarget : .error result = target) :
      Sound s target ⟨.rejected, start, stop, index, result⟩

/-- How many steps there are left, at most. -/
def remaining (s : Bytes) (m : Scanner) : Nat :=
  match m.point with
  | .outer => 4 * (s.length + 1 - m.stop) + 3
  | .inner => 4 * (s.length + 1 - m.stop) + 2
  | .field => 4 * (s.length + 1 - m.stop) + 1
  | .finished => 0
  | .rejected => 0

variable {host}

theorem sound_first (s : Bytes) (result : Stat) :
    host.Sound s (host.scan s .first result) (.first result) :=
  .outer .first (Nat.zero_le _) rfl

theorem Sound.atTop {s : Bytes} {target : Except Stat Stat} {m : Scanner}
    (h : host.Sound s target m) : m.AtTop s := by
  intro hPoint
  cases h with
  | outer c hLe hTarget => exact ⟨c.le_stop, c.stop_le, hLe⟩
  | inner => cases hPoint
  | field => cases hPoint
  | finished => cases hPoint
  | rejected => cases hPoint

theorem Sound.outcome_eq {s : Bytes} {target : Except Stat Stat} {m : Scanner}
    (h : host.Sound s target m) (hRemaining : remaining s m = 0) : m.outcome = some target := by
  cases h with
  | outer => cases hRemaining
  | inner => cases hRemaining
  | field => cases hRemaining
  | finished hTarget => exact congrArg some hTarget
  | rejected hTarget => exact congrArg some hTarget

/-- A step is inside the line, keeps the invariant and is one less to do. -/
theorem scanStep_sound {s : Bytes} {target : Except Stat Stat} {m : Scanner}
    (h : host.Sound s target m) :
    ∃ m', host.scanStep s m = .ok m' ∧ host.Sound s target m' ∧
      remaining s m' ≤ remaining s m - 1 := by
  cases h with
  | outer c _ hTarget =>
      rcases Nat.lt_or_ge c.start s.length with hStart | hStart
      · rw [host.scan_eq_resume hStart] at hTarget
        refine ⟨_, congrArg Except.ok (if_pos hStart), ?_, Nat.le_refl _⟩
        exact .inner c hStart (Nat.le_trans c.stop_le hStart) hTarget
      · rw [scan_of_le hStart] at hTarget
        exact ⟨_, congrArg Except.ok (if_neg (Nat.not_lt.mpr hStart)), .finished hTarget,
          Nat.zero_le _⟩
  | @inner c stop result hStart hStop hTarget =>
      have hCases := atInner_cases (m := ⟨.inner, c.start, stop, c.index, result⟩) hStop
      dsimp only at hCases
      rcases hCases with ⟨hStep, hEnd⟩ | ⟨hStep, hEnd⟩ | ⟨stop', hLt, hStop', hStep, hEnd⟩
      · rw [hEnd] at hTarget
        exact ⟨_, hStep, .field c hStart hStop hTarget, Nat.le_refl _⟩
      · rw [hEnd] at hTarget
        exact ⟨_, hStep, .rejected hTarget, Nat.zero_le _⟩
      · rw [hEnd] at hTarget
        refine ⟨_, hStep, .inner c hStart hStop' hTarget, ?_⟩
        simp only [remaining]
        omega
  | @field c stop result hStart hStop hTarget =>
      refine ⟨_, host.atField_eq hStart hStop, .outer (c.next stop) hStop hTarget, ?_⟩
      simp only [remaining]
      omega
  | finished hTarget => exact ⟨_, rfl, .finished hTarget, Nat.le_refl _⟩
  | rejected hTarget => exact ⟨_, rfl, .rejected hTarget, Nat.le_refl _⟩

end Host

/-- What holds of the loops on a line. -/
structure StaysInside {Double : Type} (host : Host Double) (s : Bytes) (result : Stat) : Prop where
  /-- They come to the end, which is that of `scan`. -/
  total : ∃ m, steps (host.scanStep s) (4 * s.length + 7) (Scanner.first result) = .ok m ∧
    m.outcome = some (host.scan s .first result)
  /-- No step misuses the line; and at the top of the outer loop `end` is at `start` or one behind
  it. -/
  inside : ∀ n, ∃ m, steps (host.scanStep s) n (Scanner.first result) = .ok m ∧ m.AtTop s

theorem scan_stays_inside {Double : Type} (host : Host Double) (s : Bytes) (result : Stat) :
    StaysInside host s result := by
  have hFirst := @Host.sound_first _ host s result
  have hStep := fun m => @Host.scanStep_sound _ host s (host.scan s .first result) m
  constructor
  · obtain ⟨m, hSteps, hSound, hLe⟩ := steps_descend hStep (4 * s.length + 7) hFirst
    have hRemaining : Host.remaining s (.first result) = 4 * s.length + 7 := by
      simp only [Host.remaining, Scanner.first]
      omega
    rw [hRemaining, Nat.sub_self] at hLe
    exact ⟨m, hSteps, hSound.outcome_eq (Nat.le_zero.mp hLe)⟩
  · intro n
    obtain ⟨m, hSteps, hSound, -⟩ := steps_descend hStep n hFirst
    exact ⟨m, hSteps, hSound.atTop⟩

end Kexplorer.Process

import Kexplorer.Lib.Queue
import Kexplorer.Util.ContinuousBuffer

/-!
# `ContinuousBuffer` is a bounded byte queue

Here the members of the class are plain data and every copy is checked against
the vector: a copy that leaves the storage has no result.  `ContinuousBuffer`
follows these operations, so no copy ever does, and its contents and answers are
those of a queue.
-/

namespace Kexplorer.Util

open Kexplorer.Lib

/-- `m_buffer`, `m_limit`, `m_start` and `m_used`, in any relation. -/
structure Members where
  buffer : Bytes
  limit : Nat
  start : Nat
  used : Nat

namespace Members

def new (size limit : Nat) : Members := ⟨List.replicate size 0, limit, 0, 0⟩

def capacity (b : Members) : Nat := b.buffer.length

/-- The memory behind `data()`. -/
def data (b : Members) : Bytes := if b.used = 0 then [] else b.buffer.drop b.start

/-- `std::memmove` of the used bytes to the front of the vector. -/
def memmove (b : Members) : Option Members :=
  if b.start + b.used ≤ b.buffer.length then
    some { b with
      buffer := ContinuousBuffer.memcpy b.buffer 0 ((b.buffer.drop b.start).take b.used)
      start := 0 }
  else none

/-- `std::memcpy` of `data` behind the used bytes. -/
def memcpy (b : Members) (data : Bytes) : Option Members :=
  if b.start + b.used + data.length ≤ b.buffer.length then
    some { b with
      buffer := ContinuousBuffer.memcpy b.buffer (b.start + b.used) data
      used := b.used + data.length }
  else none

/-- Maybe we can shift the existing data. -/
def slide (b : Members) : Option Members := if b.start > 0 then b.memmove else some b

/-- The second half of `push`, after the data has been shifted. -/
def pushSlid (b : Members) (data : Bytes) : Option (Bool × Members) :=
  if b.start + b.used + data.length > b.buffer.length then
    -- we have to enlarge the buffer
    if b.start + b.used + data.length > b.limit then some (false, b)
    else
      let buffer := ContinuousBuffer.resize b.buffer (b.start + b.used + data.length)
      ({ b with buffer }.memcpy data).map fun b => (true, b)
  else (b.memcpy data).map fun b => (true, b)

def push (b : Members) (data : Bytes) : Option (Bool × Members) :=
  -- have we got enough room?
  if b.start + b.used + data.length > b.buffer.length then b.slide.bind fun b => b.pushSlid data
  else (b.memcpy data).map fun b => (true, b)

def pop (b : Members) (size : Nat) : Nat × Members :=
  let size := if size > b.used then b.used else size
  (size, { b with start := b.start + size, used := b.used - size })

def reset (b : Members) : Members := { b with start := 0, used := 0 }

/-- A call of `push`, `pop` or `reset`. -/
def step (b : Members) : Queue.Op UInt8 → Option (Queue.Answer × Members)
  | .push data => (b.push data).map fun (ok, b) => (.pushed ok, b)
  | .pop size =>
      let (size, b) := b.pop size
      some (.popped size, b)
  | .reset => some (.done, b.reset)

end Members

namespace ContinuousBuffer

/-- The members alone. -/
def members (b : ContinuousBuffer) : Members := ⟨b.buffer, b.limit, b.start, b.used⟩

/-! ## No copy leaves the storage -/

variable (b : ContinuousBuffer)

theorem memmove_members : b.members.memmove = some b.shift.members :=
  if_pos b.inside

theorem memcpy_members (data : Bytes) (h : b.start + b.used + data.length ≤ b.capacity) :
    b.members.memcpy data = some (b.append data h).members :=
  if_pos h

theorem slide_members : b.members.slide = some b.slide.members := by
  unfold Members.slide slide
  by_cases hStart : 0 < b.start
  · rw [if_pos hStart, memmove_members]
    exact if_pos hStart
  · rw [if_neg hStart]
    exact if_neg hStart

theorem pushSlid_members (data : Bytes) :
    b.members.pushSlid data = some ((b.pushSlid data).1, (b.pushSlid data).2.members) := by
  unfold Members.pushSlid pushSlid
  by_cases hRoom : b.start + b.used + data.length ≤ b.capacity
  · rw [dif_pos hRoom, memcpy_members b data hRoom]
    exact if_neg (Nat.not_lt.mpr hRoom)
  · rw [dif_neg hRoom]
    refine (if_pos (Nat.lt_of_not_le hRoom)).trans ?_
    by_cases hLimit : b.limit < b.start + b.used + data.length
    · rw [if_pos hLimit]
      exact if_pos hLimit
    · rw [if_neg hLimit]
      refine (if_neg hLimit).trans ?_
      have hGrown : b.start + b.used + data.length ≤
          (b.grow (b.start + b.used + data.length)).capacity := by
        rw [capacity_grow _ (by omega)]
      exact congrArg (Option.map _)
        (memcpy_members (b.grow (b.start + b.used + data.length)) data hGrown)

/-- Every copy that `push` makes stays inside the vector. -/
theorem push_members (data : Bytes) :
    b.members.push data = some ((b.push data).1, (b.push data).2.members) := by
  unfold Members.push push
  by_cases hRoom : b.start + b.used + data.length ≤ b.capacity
  · rw [dif_pos hRoom, memcpy_members b data hRoom]
    exact if_neg (Nat.not_lt.mpr hRoom)
  · rw [dif_neg hRoom, slide_members]
    refine (if_pos (Nat.lt_of_not_le hRoom)).trans ?_
    exact b.slide.pushSlid_members data

/-! ## The queue -/

/-- The vector never gets smaller. -/
theorem capacity_push_le (data : Bytes) : b.capacity ≤ (b.push data).2.capacity := by
  have hSlide : b.slide.capacity = b.capacity := by
    unfold slide
    split
    · exact b.capacity_shift
    · rfl
  have hAppend (b : ContinuousBuffer) (h : b.start + b.used + data.length ≤ b.capacity) :
      (b.append data h).capacity = b.capacity := length_memcpy h
  unfold push
  split
  · rename_i hRoom
    exact (hAppend b hRoom).ge
  · unfold pushSlid
    split
    · rename_i hRoom
      exact ((hAppend b.slide hRoom).trans hSlide).ge
    · split
      · exact hSlide.ge
      · rename_i hRoom _
        dsimp only
        rw [hAppend, capacity_grow _ (by omega)]
        omega

/-- The operations of the class on a buffer that carries its invariant. -/
def apply : Queue.Op UInt8 → Queue.Answer × ContinuousBuffer
  | .push data => (.pushed (b.push data).1, (b.push data).2)
  | .pop size => (.popped (b.pop size).1, (b.pop size).2)
  | .reset => (.done, b.reset)

theorem step_members (op : Queue.Op UInt8) :
    b.members.step op = some ((b.apply op).1, (b.apply op).2.members) := by
  cases op with
  | push data =>
      show (b.members.push data).map _ = _
      rw [push_members]
      rfl
  | pop size =>
      have hMin : (if size > b.used then b.used else size) = min size b.used := by
        rw [min_def]
        split <;> split <;> omega
      unfold apply pop
      show some (Queue.Answer.popped (if size > b.used then b.used else size), Members.mk _ _
        (b.start + if size > b.used then b.used else size)
        (b.used - if size > b.used then b.used else size)) = _
      rw [hMin]
      rfl
  | reset => rfl

theorem capacity_apply_le (op : Queue.Op UInt8) : b.capacity ≤ (b.apply op).2.capacity := by
  cases op with
  | push data => exact b.capacity_push_le data
  | pop size => exact Nat.le_refl _
  | reset => exact Nat.le_refl _

/-- One operation on the buffer is one operation on the queue of its contents. -/
theorem apply_spec (op : Queue.Op UInt8) :
    ((b.apply op).1, (b.apply op).2.contents) = Queue.apply b.bound b.contents op ∧
      (b.apply op).2.bound = b.bound := by
  cases op with
  | push data =>
      refine ⟨?_, b.bound_push data⟩
      unfold apply Queue.apply
      by_cases hFits : b.contents.length + data.length ≤ b.bound
      · rw [length_contents] at hFits
        obtain ⟨hOk, hContents⟩ := b.push_of_le hFits
        simp only [hOk, hContents, length_contents, if_pos hFits]
      · rw [length_contents] at hFits
        obtain ⟨hOk, hContents⟩ := b.push_of_lt (Nat.lt_of_not_le hFits)
        simp only [hOk, hContents, length_contents, if_neg hFits]
  | pop size =>
      refine ⟨?_, b.bound_pop size⟩
      unfold apply Queue.apply
      rw [contents_pop, length_contents]
      rfl
  | reset =>
      refine ⟨?_, b.bound_reset⟩
      unfold apply Queue.apply
      rw [contents_reset]

end ContinuousBuffer

namespace Members

/-- The members of a buffer that holds a queue. -/
def Holds (bound : Nat) (m : Members) (queue : Bytes) : Prop :=
  ∃ b : ContinuousBuffer, b.members = m ∧ b.bound = bound ∧ b.contents = queue

theorem holds_step {bound : Nat} (m : Members) (queue : Bytes) (op : Queue.Op UInt8)
    (h : Holds bound m queue) :
    ∃ m', m.step op = some ((Queue.apply bound queue op).1, m') ∧
      Holds bound m' (Queue.apply bound queue op).2 := by
  obtain ⟨b, rfl, rfl, rfl⟩ := h
  obtain ⟨hQueue, hBound⟩ := b.apply_spec op
  refine ⟨(b.apply op).2.members, ?_, _, rfl, hBound, congrArg Prod.snd hQueue⟩
  rw [b.step_members op, ← hQueue]

/-- After any calls the class has answered as a queue that holds `max size limit` bytes and its data
are those of that queue; no copy has left the vector, nor would one in the next call; and the vector
lies within its bounds and does not shrink. -/
theorem bounded_queue (size limit : Nat) (calls : List (Queue.Op UInt8)) :
    ∃ m, Queue.runWith step (new size limit) calls =
        some ((Queue.run (max size limit) [] calls).1, m) ∧
      m.data.take m.used = (Queue.run (max size limit) [] calls).2 ∧
      m.used = (Queue.run (max size limit) [] calls).2.length ∧
      m.start + m.used ≤ m.capacity ∧ m.capacity ≤ max size limit ∧
      ∀ call, ∃ answer m', m.step call = some (answer, m') ∧ m.capacity ≤ m'.capacity := by
  have hNew : Holds (max size limit) (new size limit) [] :=
    ⟨.new size limit, rfl, ContinuousBuffer.bound_new size limit,
      ContinuousBuffer.contents_new size limit⟩
  obtain ⟨m, hRun, b, rfl, hBound, hContents⟩ := Queue.run_refines holds_step calls hNew
  refine ⟨b.members, hRun, ?_, ?_, b.inside, ?_, fun call => ?_⟩
  · rw [← hContents]
    exact b.take_data
  · rw [← hContents, b.length_contents]
    rfl
  · rw [← hBound]
    exact le_max_left _ _
  · exact ⟨_, _, b.step_members call, b.capacity_apply_le call⟩

end Members

end Kexplorer.Util

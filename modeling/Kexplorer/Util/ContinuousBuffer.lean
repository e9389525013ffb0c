import Kexplorer.Lib.Bytes
import Mathlib.Order.Basic
import Mathlib.Tactic.SplitIfs

/-!
# `ContinuousBuffer`

The byte queue under both ends of the protocol: a vector in which the queued
bytes occupy `m_buffer[m_start .. m_start + m_used)`.  `push` slides them to
the front or enlarges the vector when there is no room behind them, `pop`
drops bytes from the front by moving `m_start`.

That the queued bytes lie inside the vector is a field of the model, so every
operation below comes with the proof that its copies stay inside the storage.
Sizes are natural numbers: a vector and a chunk are each shorter than
`PTRDIFF_MAX`, so the sums that `push` forms cannot wrap in a `size_t`.

Seen as a queue (`contents`), a buffer takes `bound` bytes, where `bound` is
the larger of capacity and limit and never changes.
-/

namespace Kexplorer.Util

/-- `m_buffer`, `m_limit`, `m_start` and `m_used`; the used part lies inside
the vector. -/
structure ContinuousBuffer where
  buffer : Bytes
  limit : Nat
  start : Nat
  used : Nat
  inside : start + used ≤ buffer.length

namespace ContinuousBuffer

/-- `memcpy(dst + at, src, src.length)`. -/
def memcpy (dst : Bytes) (pos : Nat) (src : Bytes) : Bytes :=
  dst.take pos ++ src ++ dst.drop (pos + src.length)

theorem length_memcpy {dst src : Bytes} {pos : Nat} (h : pos + src.length ≤ dst.length) :
    (memcpy dst pos src).length = dst.length := by
  simp only [memcpy, List.length_append, List.length_take, List.length_drop]
  omega

/-- `std::vector::resize` to a size that is not smaller. -/
def resize (v : Bytes) (size : Nat) : Bytes :=
  v ++ List.replicate (size - v.length) 0

theorem length_resize {v : Bytes} {size : Nat} (h : v.length ≤ size) :
    (resize v size).length = size := by
  simp only [resize, List.length_append, List.length_replicate]
  omega

/-- A new buffer of `size` zero bytes. -/
def new (size limit : Nat) : ContinuousBuffer where
  buffer := List.replicate size 0
  limit := limit
  start := 0
  used := 0
  inside := by simp

def capacity (b : ContinuousBuffer) : Nat := b.buffer.length

def space (b : ContinuousBuffer) : Nat := b.capacity - (b.start + b.used)

/-- The memory `data()` points to, up to the end of the vector; nothing can be
read through the null pointer that an empty buffer returns. -/
def data (b : ContinuousBuffer) : Bytes :=
  if b.used = 0 then [] else b.buffer.drop b.start

/-- The queued bytes. -/
def contents (b : ContinuousBuffer) : Bytes := (b.buffer.drop b.start).take b.used

/-- How many bytes the buffer can hold: what it has, or what it may grow to. -/
def bound (b : ContinuousBuffer) : Nat := max b.capacity b.limit

/-- Slide the used bytes to the front of the vector. -/
def shift (b : ContinuousBuffer) : ContinuousBuffer where
  buffer := memcpy b.buffer 0 b.contents
  limit := b.limit
  start := 0
  used := b.used
  inside := by
    have hin := b.inside
    have hlen : b.contents.length = b.used := by
      simp only [contents, List.length_take, List.length_drop]
      omega
    rw [length_memcpy (by omega)]
    omega

/-- Enlarge the vector; the used bytes stay where they are. -/
def grow (b : ContinuousBuffer) (size : Nat) : ContinuousBuffer where
  buffer := resize b.buffer size
  limit := b.limit
  start := b.start
  used := b.used
  inside := by
    have := b.inside
    simp only [resize, List.length_append]
    omega

/-- Copy `data` behind the used bytes. -/
def append (b : ContinuousBuffer) (data : Bytes)
    (h : b.start + b.used + data.length ≤ b.capacity) : ContinuousBuffer where
  buffer := memcpy b.buffer (b.start + b.used) data
  limit := b.limit
  start := b.start
  used := b.used + data.length
  inside := by
    rw [length_memcpy h]
    simp only [capacity] at h
    omega

/-- Maybe we can shift the existing data. -/
def slide (b : ContinuousBuffer) : ContinuousBuffer :=
  if 0 < b.start then b.shift else b

/-- The second half of `push`, after the data has been shifted: copy if there
is room now, else enlarge the vector up to the limit. -/
def pushSlid (b : ContinuousBuffer) (data : Bytes) : Bool × ContinuousBuffer :=
  if h : b.start + b.used + data.length ≤ b.capacity then
    (true, b.append data h)
  else if b.limit < b.start + b.used + data.length then
    (false, b)
  else
    (true, (b.grow (b.start + b.used + data.length)).append data (by
      simp only [capacity] at h
      simp only [grow, capacity]
      rw [length_resize (by omega)]))

/-- `push`: the result of the call and the buffer after it. -/
def push (b : ContinuousBuffer) (data : Bytes) : Bool × ContinuousBuffer :=
  if h : b.start + b.used + data.length ≤ b.capacity then
    (true, b.append data h)
  else
    b.slide.pushSlid data

/-- `pop`: the number of bytes dropped and the buffer after it. -/
def pop (b : ContinuousBuffer) (size : Nat) : Nat × ContinuousBuffer :=
  let size := min size b.used
  (size, { b with
    start := b.start + size
    used := b.used - size
    inside := by have := b.inside; omega })

def reset (b : ContinuousBuffer) : ContinuousBuffer :=
  { b with start := 0, used := 0, inside := by simp }

/-! ## The queue -/

variable (b : ContinuousBuffer)

@[simp] theorem length_contents : b.contents.length = b.used := by
  have := b.inside
  simp only [contents, List.length_take, List.length_drop]
  omega

theorem used_le_bound : b.used ≤ b.bound := by
  have := b.inside
  simp only [bound, capacity]
  omega

@[simp] theorem contents_new (size limit : Nat) : (new size limit).contents = [] := by
  simp [new, contents]

@[simp] theorem bound_new (size limit : Nat) : (new size limit).bound = max size limit := by
  simp [new, bound, capacity]

@[simp] theorem contents_reset : b.reset.contents = [] := by
  simp [reset, contents]

@[simp] theorem bound_reset : b.reset.bound = b.bound := rfl

@[simp] theorem used_reset : b.reset.used = 0 := rfl

/-- The queued bytes are the first `used()` bytes behind `data()`. -/
theorem take_data : b.data.take b.used = b.contents := by
  by_cases h : b.used = 0
  · simp [data, contents, h]
  · simp [data, contents, h]

theorem contents_prefix_data : b.contents <+: b.data :=
  b.take_data ▸ List.take_prefix b.used b.data

theorem contents_pop (n : Nat) : (b.pop n).2.contents = b.contents.drop n := by
  simp only [pop, contents, List.drop_take, List.drop_drop]
  rcases Nat.le_total n b.used with h | h
  · rw [Nat.min_eq_left h]
  · rw [Nat.min_eq_right h, Nat.sub_self, Nat.sub_eq_zero_of_le h]
    simp

@[simp] theorem bound_pop (n : Nat) : (b.pop n).2.bound = b.bound := rfl

@[simp] theorem contents_shift : b.shift.contents = b.contents := by
  have hlen := b.length_contents
  have h : b.shift.contents = (b.contents ++ b.buffer.drop (0 + b.contents.length)).take b.used :=
    rfl
  rw [h, List.take_append_of_le_length (by omega), List.take_of_length_le (by omega)]

@[simp] theorem capacity_shift : b.shift.capacity = b.capacity := by
  have := b.inside
  rw [capacity, capacity, shift]
  rw [length_memcpy]
  simp only [length_contents]
  omega

@[simp] theorem contents_grow (size : Nat) : (b.grow size).contents = b.contents := by
  have := b.inside
  simp only [grow, resize, contents]
  rw [List.drop_append_of_le_length (by omega), List.take_append_of_le_length]
  simp only [List.length_drop]
  omega

theorem contents_append (data : Bytes) (h : b.start + b.used + data.length ≤ b.capacity) :
    (b.append data h).contents = b.contents ++ data := by
  have hin := b.inside
  simp only [capacity] at h
  simp only [append, contents, memcpy]
  rw [List.append_assoc, List.drop_append_of_le_length (by simp; omega), ← List.append_assoc,
    List.take_append_of_le_length (by simp; omega), List.take_of_length_le (by simp; omega),
    List.drop_take]
  simp

theorem bound_append (data : Bytes) (h : b.start + b.used + data.length ≤ b.capacity) :
    (b.append data h).bound = b.bound := by
  simp only [bound, capacity, append, length_memcpy h]

theorem capacity_grow {size : Nat} (h : b.capacity ≤ size) : (b.grow size).capacity = size :=
  length_resize h

/-! ## What `push` does -/

/-- The buffer that `push` looks at a second time holds the same bytes, and
holds them at the front. -/
theorem slide_spec :
    b.slide.start = 0 ∧ b.slide.used = b.used ∧ b.slide.contents = b.contents ∧
      b.slide.bound = b.bound := by
  rw [slide]
  by_cases h : 0 < b.start
  · rw [if_pos h]
    exact ⟨rfl, rfl, b.contents_shift, congrArg (max · b.limit) b.capacity_shift⟩
  · rw [if_neg h]
    exact ⟨by omega, rfl, rfl, rfl⟩

/-- Everything a `push` can do: it takes the chunk when `bound` allows and
leaves the queued bytes alone when it does not; the bound stays. -/
def PushSpec (b : ContinuousBuffer) (data : Bytes) (r : Bool × ContinuousBuffer) : Prop :=
  (b.used + data.length ≤ b.bound ∧ r.1 = true ∧
    r.2.contents = b.contents ++ data ∧ r.2.bound = b.bound) ∨
  (b.bound < b.used + data.length ∧ r.1 = false ∧
    r.2.contents = b.contents ∧ r.2.bound = b.bound)

theorem pushSpec_append (data : Bytes) (h : b.start + b.used + data.length ≤ b.capacity) :
    b.PushSpec data (true, b.append data h) :=
  .inl ⟨by rw [bound]; omega, rfl, b.contents_append data h, b.bound_append data h⟩

theorem pushSpec_pushSlid (data : Bytes) (hstart : b.start = 0) :
    b.PushSpec data (b.pushSlid data) := by
  rw [pushSlid]
  split
  case isTrue h => exact b.pushSpec_append data h
  case isFalse h =>
    split
    case isTrue hl => exact .inr ⟨by rw [bound]; omega, rfl, rfl, rfl⟩
    case isFalse hl =>
      refine .inl ⟨by rw [bound]; omega, rfl, ?_, ?_⟩
      · rw [contents_append, contents_grow]
      · -- the vector grows, but only up to the limit
        rw [bound_append, bound, capacity_grow _ (by omega), bound]
        show max _ b.limit = _
        rw [max_eq_right (by omega), max_eq_right (by omega)]

/-- `push` keeps to its specification, however the data lies in the vector. -/
theorem push_spec (data : Bytes) : b.PushSpec data (b.push data) := by
  rw [push]
  split
  case isTrue h => exact b.pushSpec_append data h
  case isFalse h =>
    obtain ⟨hstart, hused, hcontents, hbound⟩ := b.slide_spec
    have := b.slide.pushSpec_pushSlid data hstart
    rwa [PushSpec, hused, hcontents, hbound] at this

/-- A chunk that fits is queued. -/
theorem push_of_le {data : Bytes} (h : b.used + data.length ≤ b.bound) :
    (b.push data).1 = true ∧ (b.push data).2.contents = b.contents ++ data := by
  rcases b.push_spec data with ⟨-, h1, h2, -⟩ | ⟨hlt, -⟩
  · exact ⟨h1, h2⟩
  · omega

/-- A chunk that does not fit is refused. -/
theorem push_of_lt {data : Bytes} (h : b.bound < b.used + data.length) :
    (b.push data).1 = false ∧ (b.push data).2.contents = b.contents := by
  rcases b.push_spec data with ⟨hle, -⟩ | ⟨-, h1, h2, -⟩
  · omega
  · exact ⟨h1, h2⟩

@[simp] theorem bound_push (data : Bytes) : (b.push data).2.bound = b.bound := by
  rcases b.push_spec data with ⟨-, -, -, h⟩ | ⟨-, -, -, h⟩ <;> exact h

/-- Whether or not a `push` succeeds, the bytes queued before it are still the
first ones queued. -/
theorem contents_prefix_push (data : Bytes) : b.contents <+: (b.push data).2.contents := by
  rcases b.push_spec data with ⟨-, -, h, -⟩ | ⟨-, -, h, -⟩ 
  · rw [h]
    exact List.prefix_append b.contents data
  · exact h ▸ List.prefix_refl b.contents

end ContinuousBuffer

end Kexplorer.Util

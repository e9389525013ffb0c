import Kexplorer.Kesctl.Client
import Kexplorer.Server.SessionHandler
import Mathlib.Logic.Function.Basic

/-!
# Reading into two buffers

A session starts the next read before it processes what the last one has brought,
so that bytes arrive while `process` copies others.  `ReadBuffer` keeps them apart.
The client uses it too, but processes first.

Here the memory is part of the state.  Bytes arrive in it, any number at a time,
as long as a read is pending; a call of `process` takes its chunk out of it in
pieces, and what it makes of the chunk depends on the pieces only.  Callbacks
run one at a time.

`session_reads` and `client_reads` say that nothing gets lost, mixed up or overwritten:
the other modules may give every chunk to `process` as it has arrived.
-/

namespace Kexplorer.Server

open Kexplorer.Lib Kexplorer.Util Kexplorer.Kesctl

/-! ## The buffers -/

/-- `ReadBuffer`. -/
structure ReadBuffer where
  size : Nat
  buffers : Fin 2 → Bytes
  active : Fin 2
  length_buffers : ∀ index, (buffers index).length = size

namespace ReadBuffer

def create (size : Nat) : ReadBuffer where
  size := size
  buffers := fun _ => List.replicate size 0
  active := 0
  length_buffers := fun _ => List.length_replicate

def data (b : ReadBuffer) (index : Fin 2) : Bytes := b.buffers index

def wIndex (b : ReadBuffer) : Fin 2 := b.active

def rIndex (b : ReadBuffer) : Fin 2 := b.active ^^^ 1

def swap (b : ReadBuffer) : ReadBuffer := { b with active := b.active ^^^ 1 }

/-- Bytes arrive at a position of a buffer, if there is room. -/
def store (b : ReadBuffer) (index : Fin 2) (pos : Nat) (bytes : Bytes) : ReadBuffer :=
  if h : pos + bytes.length ≤ b.size then
    { b with
      buffers :=
        Function.update b.buffers index (ContinuousBuffer.memcpy (b.buffers index) pos bytes)
      length_buffers := by
        intro i
        by_cases hi : i = index
        · subst hi
          rw [Function.update_self, ContinuousBuffer.length_memcpy (by rwa [b.length_buffers]),
            b.length_buffers]
        · rw [Function.update_of_ne hi, b.length_buffers] }
  else b

theorem rIndex_ne_wIndex (b : ReadBuffer) : b.rIndex ≠ b.wIndex := by
  have hFlip : ∀ i : Fin 2, i ^^^ 1 ≠ i := by decide
  exact hFlip b.active

@[simp] theorem wIndex_swap (b : ReadBuffer) : b.swap.wIndex = b.rIndex := rfl

@[simp] theorem rIndex_swap (b : ReadBuffer) : b.swap.rIndex = b.wIndex := by
  have hFlip : ∀ i : Fin 2, (i ^^^ 1) ^^^ 1 = i := by decide
  exact hFlip b.active

@[simp] theorem data_swap (b : ReadBuffer) (index : Fin 2) : b.swap.data index = b.data index := rfl

@[simp] theorem size_swap (b : ReadBuffer) : b.swap.size = b.size := rfl

section

variable (b : ReadBuffer) (index : Fin 2) (pos : Nat) (bytes : Bytes)

@[simp] theorem wIndex_store : (b.store index pos bytes).wIndex = b.wIndex := by
  unfold store
  split <;> rfl

@[simp] theorem rIndex_store : (b.store index pos bytes).rIndex = b.rIndex := by
  unfold store
  split <;> rfl

@[simp] theorem size_store : (b.store index pos bytes).size = b.size := by
  unfold store
  split <;> rfl

/-- The other buffer is left alone. -/
theorem data_store_of_ne {index i : Fin 2} (h : i ≠ index) :
    (b.store index pos bytes).data i = b.data i := by
  unfold store
  split
  · exact Function.update_of_ne h _ _
  · rfl

variable {b index pos bytes}

/-- The buffer holds what it held up to the position, and then what has arrived. -/
theorem take_data_store (h : pos + bytes.length ≤ b.size) :
    ((b.store index pos bytes).data index).take (pos + bytes.length) =
      (b.data index).take pos ++ bytes := by
  have hLength : ((b.data index).take pos ++ bytes).length = pos + bytes.length := by
    rw [List.length_append, List.length_take, data, b.length_buffers]
    omega
  have hStored : (b.store index pos bytes).data index =
      (b.data index).take pos ++ bytes ++ (b.data index).drop (pos + bytes.length) := by
    rw [store, dif_pos h]
    exact Function.update_self index _ _
  rw [hStored, ← hLength, List.take_left]

end

end ReadBuffer

/-! ## The reader -/

/-- A pending read: the buffer it was given, and how many bytes have arrived. -/
structure Pending where
  index : Fin 2
  count : Nat
  deriving DecidableEq

/-- A call of `process`: the buffer, the number of bytes, and what of them it has looked at. -/
structure Call where
  index : Fin 2
  transferred : Nat
  copied : Bytes
  deriving DecidableEq

/-- Who processes the chunks. -/
structure Consumer (κ ω : Type) where
  process : κ → Bytes → ω × κ
  /-- Whether it wants more. -/
  goesOn : ω → Bool
  /-- Whether the next read is started before a chunk is processed. -/
  readsAhead : Bool

namespace Consumer

variable {κ ω : Type} (C : Consumer κ ω)

/-- The calls made for a sequence of chunks. -/
def calls : κ → List Bytes → List ω
  | _, [] => []
  | k, chunk :: chunks => (C.process k chunk).1 :: calls (C.process k chunk).2 chunks

/-- The consumer after a sequence of chunks. -/
def after : κ → List Bytes → κ
  | k, [] => k
  | k, chunk :: chunks => after (C.process k chunk).2 chunks

theorem calls_concat (chunk : Bytes) (chunks : List Bytes) :
    ∀ k, C.calls k (chunks ++ [chunk]) =
      C.calls k chunks ++ [(C.process (C.after k chunks) chunk).1] := by
  induction chunks with
  | nil => exact fun _ => rfl
  | cons first chunks ih => exact fun k => congrArg _ (ih (C.process k first).2)

theorem after_concat (chunk : Bytes) (chunks : List Bytes) :
    ∀ k, C.after k (chunks ++ [chunk]) = (C.process (C.after k chunks) chunk).2 := by
  induction chunks with
  | nil => exact fun _ => rfl
  | cons first chunks ih => exact fun k => ih (C.process k first).2

end Consumer

/-- The reading side of a connection.  What has arrived, which chunks were processed and what came
of it is recorded and read by nobody. -/
structure Reader (κ ω : Type) where
  buffer : ReadBuffer
  read : Option Pending
  call : Option Call
  consumer : κ
  stopped : Bool
  stream : Bytes
  processed : List Bytes
  outcomes : List ω

/-- What can happen, with the read or the call that it happens to. -/
inductive Reader.Event
  | arrive (read : Pending) (bytes : Bytes)
  | complete (read : Pending)
  | copy (call : Call) (size : Nat)
  | finish (call : Call)
  /-- The read ends with an error. -/
  | fail (read : Pending)

namespace Reader

section

variable {κ ω : Type} (C : Consumer κ ω)

/-- `read(buffer)`. -/
def startRead (s : Reader κ ω) : Reader κ ω :=
  { s with read := some ⟨s.buffer.wIndex, 0⟩ }

/-- A reader that has called `read` without a buffer. -/
def new (size : Nat) (k : κ) : Reader κ ω :=
  startRead
    { buffer := .create size
      read := none
      call := none
      consumer := k
      stopped := false
      stream := []
      processed := []
      outcomes := [] }

/-- `onRead`, up to the call of `process`. -/
def onRead (transferred : Nat) (s : Reader κ ω) : Reader κ ω :=
  let s := { s with buffer := s.buffer.swap, read := none }
  let s := if C.readsAhead then s.startRead else s
  { s with call := some ⟨s.buffer.rIndex, transferred, []⟩ }

/-- `process` returns, and `onRead` after it. -/
def finish (data : Bytes) (s : Reader κ ω) : Reader κ ω :=
  let outcome := (C.process s.consumer data).1
  let s :=
    { s with
      call := none
      consumer := (C.process s.consumer data).2
      processed := s.processed ++ [data]
      outcomes := s.outcomes ++ [outcome] }
  if C.goesOn outcome then
    if C.readsAhead then s else s.startRead
  else { s with stopped := true }

/-- Whether an event is possible. -/
def possible (s : Reader κ ω) : Event → Bool
  | .arrive read bytes =>
      s.stopped = false ∧ s.read = some read ∧ read.count + bytes.length ≤ s.buffer.size
  | .complete read => s.stopped = false ∧ s.read = some read ∧ s.call = none
  | .copy call size =>
      s.stopped = false ∧ s.call = some call ∧ call.copied.length + size ≤ call.transferred
  | .finish call =>
      s.stopped = false ∧ s.call = some call ∧ call.copied.length = call.transferred
  | .fail read => s.stopped = false ∧ s.read = some read ∧ s.call = none

/-- A possible event. -/
def act (s : Reader κ ω) : Event → Reader κ ω
  | .arrive read bytes =>
      { s with
        buffer := s.buffer.store read.index read.count bytes
        read := some { read with count := read.count + bytes.length }
        stream := s.stream ++ bytes }
  | .complete read => onRead C read.count s
  | .copy call size =>
      let piece := ((s.buffer.data call.index).drop call.copied.length).take size
      { s with call := some { call with copied := call.copied ++ piece } }
  | .finish call => finish C call.copied s
  | .fail _ => { s with stopped := true }

/-- One event.  One that is not possible changes nothing. -/
def step (s : Reader κ ω) (event : Event) : Reader κ ω :=
  if s.possible event then s.act C event else s

def run (s : Reader κ ω) (events : List Event) : Reader κ ω := events.foldl (step C) s

/-- The bytes of a pending read. -/
def pending (s : Reader κ ω) : Bytes :=
  (s.read.map fun read => (s.buffer.data read.index).take read.count).getD []

/-- The chunk of the call that is going on. -/
def chunk (s : Reader κ ω) : Bytes :=
  (s.call.map fun call => (s.buffer.data call.index).take call.transferred).getD []

end

/-! ## One event -/

variable {κ ω : Type} {C : Consumer κ ω} {k : κ}

/-- Every byte that has arrived was processed, or is where the call or the pending read expects
it. -/
structure Intact (C : Consumer κ ω) (k : κ) (s : Reader κ ω) : Prop where
  read : ∀ read, s.read = some read → read.index = s.buffer.wIndex ∧ read.count ≤ s.buffer.size
  call : ∀ call, s.call = some call → call.index = s.buffer.rIndex ∧
    call.transferred ≤ s.buffer.size ∧
      call.copied <+: (s.buffer.data call.index).take call.transferred
  stream : s.stream = s.processed.flatten ++ s.chunk ++ s.pending
  fits : ∀ data ∈ s.processed, data.length ≤ s.buffer.size
  outcomes : s.outcomes = C.calls k s.processed
  consumer : s.consumer = C.after k s.processed
  /-- Only after the last call the reader can have stopped. -/
  goesOn : ∀ outcome ∈ s.outcomes.dropLast, C.goesOn outcome = true
  going : s.stopped = false → ∀ outcome ∈ s.outcomes, C.goesOn outcome = true
  /-- A read is pending, unless the call that is going on will start one. -/
  reads : s.stopped = false → (s.read.isSome ↔ C.readsAhead = true ∨ s.call = none)

theorem pending_eq {s : Reader κ ω} {read : Pending} (h : s.read = some read) :
    s.pending = (s.buffer.data read.index).take read.count := by
  rw [pending, h]
  rfl

theorem chunk_eq {s : Reader κ ω} {call : Call} (h : s.call = some call) :
    s.chunk = (s.buffer.data call.index).take call.transferred := by
  rw [chunk, h]
  rfl

theorem pending_of_none {s : Reader κ ω} (h : s.read = none) : s.pending = [] := by
  rw [pending, h]
  rfl

theorem chunk_of_none {s : Reader κ ω} (h : s.call = none) : s.chunk = [] := by
  rw [chunk, h]
  rfl

/-- A read that has just been started has no bytes. -/
theorem pending_of_fresh {s : Reader κ ω} (h : ∀ read, s.read = some read → read.count = 0) :
    s.pending = [] := by
  cases hRead : s.read with
  | none => exact pending_of_none hRead
  | some read => rw [pending_eq hRead, h read hRead, List.take_zero]

theorem onRead_eq (transferred : Nat) (s : Reader κ ω) :
    onRead C transferred s =
      { s with
        buffer := s.buffer.swap
        read := if C.readsAhead then some ⟨s.buffer.swap.wIndex, 0⟩ else none
        call := some ⟨s.buffer.swap.rIndex, transferred, []⟩ } := by
  unfold onRead
  cases C.readsAhead <;> rfl

theorem finish_eq (data : Bytes) (s : Reader κ ω) :
    finish C data s =
      { s with
        call := none
        consumer := (C.process s.consumer data).2
        processed := s.processed ++ [data]
        outcomes := s.outcomes ++ [(C.process s.consumer data).1]
        read :=
          if C.goesOn (C.process s.consumer data).1 && !C.readsAhead then
            some ⟨s.buffer.wIndex, 0⟩
          else s.read
        stopped := !C.goesOn (C.process s.consumer data).1 || s.stopped } := by
  unfold finish
  dsimp only
  cases C.goesOn (C.process s.consumer data).1 <;> cases C.readsAhead <;> rfl

theorem Intact.new (C : Consumer κ ω) (size : Nat) (k : κ) : Intact C k (new size k) where
  read := by
    rintro read ⟨rfl⟩
    exact ⟨rfl, Nat.zero_le _⟩
  call := nofun
  stream := by
    have hFresh : (Reader.new size k : Reader κ ω).pending = [] :=
      pending_of_fresh (by rintro read ⟨rfl⟩; rfl)
    rw [hFresh]
    rfl
  fits := nofun
  outcomes := rfl
  consumer := rfl
  goesOn := nofun
  going := nofun
  reads := fun _ => iff_of_true rfl (.inr rfl)

/-- What arrives is stored where no call is looking. -/
theorem Intact.arrive {s : Reader κ ω} (h : Intact C k s) {read : Pending} {bytes : Bytes}
    (hRead : s.read = some read) (hRoom : read.count + bytes.length ≤ s.buffer.size) :
    Intact C k (s.act C (.arrive read bytes)) := by
  obtain ⟨hIndex, -⟩ := h.read read hRead
  have hOther : ∀ call, s.call = some call →
      (s.buffer.store read.index read.count bytes).data call.index = s.buffer.data call.index := by
    intro call hCall
    refine ReadBuffer.data_store_of_ne _ _ _ fun hSame => ?_
    rw [hIndex, (h.call call hCall).1] at hSame
    exact s.buffer.rIndex_ne_wIndex hSame
  have hChunk : (s.act C (.arrive read bytes)).chunk = s.chunk := by
    cases hCall : s.call with
    | none =>
        rw [chunk_of_none (s := s) hCall]
        exact chunk_of_none hCall
    | some call =>
        rw [chunk_eq (s := s) hCall, ← hOther call hCall]
        exact chunk_eq hCall
  have hPending : (s.act C (.arrive read bytes)).pending = s.pending ++ bytes := by
    rw [pending_eq hRead, ← ReadBuffer.take_data_store hRoom]
    rfl
  exact
    { read := by
        rintro read' ⟨rfl⟩
        exact ⟨hIndex.trans (ReadBuffer.wIndex_store ..).symm,
          hRoom.trans (ReadBuffer.size_store ..).symm.le⟩
      call := by
        intro call hCall
        obtain ⟨hCallIndex, hSize, hCopied⟩ := h.call call hCall
        refine ⟨hCallIndex.trans (ReadBuffer.rIndex_store ..).symm,
          hSize.trans (ReadBuffer.size_store ..).symm.le, ?_⟩
        exact (hOther call hCall).symm ▸ hCopied
      stream := by
        rw [hChunk, hPending, ← List.append_assoc]
        exact congrArg (· ++ bytes) h.stream
      fits := fun data hData => (h.fits data hData).trans (ReadBuffer.size_store ..).symm.le
      outcomes := h.outcomes
      consumer := h.consumer
      goesOn := h.goesOn
      going := h.going
      reads := fun hStopped => iff_of_true rfl ((h.reads hStopped).mp (by rw [hRead]; rfl)) }

/-- The buffer of the read becomes that of the call. -/
theorem Intact.complete {s : Reader κ ω} (h : Intact C k s) {read : Pending}
    (hRead : s.read = some read) (hCall : s.call = none) :
    Intact C k (s.act C (.complete read)) := by
  obtain ⟨hIndex, hCount⟩ := h.read read hRead
  have hChunk : (s.act C (.complete read)).chunk = s.pending := by
    rw [pending_eq hRead, hIndex, ← s.buffer.rIndex_swap]
    simp only [act, onRead_eq]
    rfl
  have hPending : (s.act C (.complete read)).pending = [] := by
    refine pending_of_fresh fun next hNext => ?_
    simp only [act, onRead_eq] at hNext
    split at hNext <;> cases hNext
    rfl
  simp only [act, onRead_eq] at hChunk hPending ⊢
  exact
    { read := by
        intro next hNext
        dsimp only at hNext
        split at hNext <;> cases hNext
        exact ⟨rfl, Nat.zero_le _⟩
      call := by
        rintro call ⟨rfl⟩
        exact ⟨rfl, hCount, List.nil_prefix⟩
      stream := by
        rw [hChunk, hPending, List.append_nil]
        dsimp only
        rw [h.stream, chunk_of_none hCall, List.append_nil]
      fits := h.fits
      outcomes := h.outcomes
      consumer := h.consumer
      goesOn := h.goesOn
      going := h.going
      reads := by
        cases C.readsAhead <;> simp }

/-- A piece of the chunk is what is next in it. -/
theorem Intact.copy {s : Reader κ ω} (h : Intact C k s) {call : Call} {size : Nat}
    (hCall : s.call = some call) (hSize : call.copied.length + size ≤ call.transferred) :
    Intact C k (s.act C (.copy call size)) := by
  obtain ⟨hIndex, hTransferred, hCopied⟩ := h.call call hCall
  have hTaken : call.copied = (s.buffer.data call.index).take call.copied.length := by
    have hTake := List.prefix_iff_eq_take.mp hCopied
    rwa [List.take_take, Nat.min_eq_left (by omega)] at hTake
  exact
    { read := h.read
      call := by
        rintro call' ⟨rfl⟩
        refine ⟨hIndex, hTransferred, ?_⟩
        dsimp only
        rw [show call.copied ++ ((s.buffer.data call.index).drop call.copied.length).take size =
          (s.buffer.data call.index).take (call.copied.length + size) by
            rw [List.take_add, ← hTaken]]
        exact List.take_prefix_take_left hSize
      stream := h.stream.trans (by rw [chunk_eq hCall]; rfl)
      fits := h.fits
      outcomes := h.outcomes
      consumer := h.consumer
      goesOn := h.goesOn
      going := h.going
      reads := fun hStopped => (h.reads hStopped).trans (by rw [hCall]; simp [act]) }

/-- What a call has copied in the end is its chunk. -/
theorem Intact.finish {s : Reader κ ω} (h : Intact C k s) {call : Call}
    (hStopped : s.stopped = false) (hCall : s.call = some call)
    (hDone : call.copied.length = call.transferred) : Intact C k (s.act C (.finish call)) := by
  obtain ⟨-, hTransferred, hCopied⟩ := h.call call hCall
  have hChunk : s.chunk = call.copied := by
    rw [chunk_eq hCall]
    refine (hCopied.eq_of_length ?_).symm
    rw [hDone, List.length_take, ReadBuffer.data, s.buffer.length_buffers]
    exact (Nat.min_eq_left hTransferred).symm
  have hPending : (s.act C (.finish call)).pending = s.pending := by
    simp only [act, finish_eq]
    split
    · rename_i hLate
      have hNone : s.read = none := by
        have hReads := h.reads hStopped
        simp_all
      rw [pending_of_none hNone]
      exact pending_of_fresh (by rintro read ⟨rfl⟩; rfl)
    · rfl
  simp only [act, finish_eq] at hPending ⊢
  exact
    { read := by
        intro read hRead
        dsimp only at hRead
        split at hRead
        · cases hRead
          exact ⟨rfl, Nat.zero_le _⟩
        · exact h.read read hRead
      call := nofun
      stream := by
        rw [hPending, chunk_of_none rfl, List.append_nil]
        dsimp only
        rw [h.stream, hChunk, List.flatten_concat]
      fits := List.forall_mem_append.mpr ⟨h.fits, by simpa [hDone] using hTransferred⟩
      outcomes := by
        dsimp only
        rw [C.calls_concat, ← h.outcomes, ← h.consumer]
      consumer := by
        dsimp only
        rw [C.after_concat, ← h.consumer]
      goesOn := by
        dsimp only
        rw [List.dropLast_concat]
        exact h.going hStopped
      going := by
        intro hGoing
        have hGoesOn : C.goesOn (C.process s.consumer call.copied).1 = true := by
          simpa [hStopped] using hGoing
        exact List.forall_mem_append.mpr ⟨h.going hStopped, by simpa using hGoesOn⟩
      reads := by
        intro hGoing
        have hReads := h.reads hStopped
        cases hAhead : C.readsAhead <;> simp_all }

/-! ## Runs -/

theorem Intact.step {s : Reader κ ω} (h : Intact C k s) (event : Event) :
    Intact C k (s.step C event) := by
  unfold Reader.step
  split
  · rename_i hPossible
    cases event with
    | arrive read bytes =>
        obtain ⟨-, hRead, hRoom⟩ := of_decide_eq_true hPossible
        exact h.arrive hRead hRoom
    | complete read =>
        obtain ⟨-, hRead, hCall⟩ := of_decide_eq_true hPossible
        exact h.complete hRead hCall
    | copy call size =>
        obtain ⟨-, hCall, hSize⟩ := of_decide_eq_true hPossible
        exact h.copy hCall hSize
    | finish call =>
        obtain ⟨hStopped, hCall, hDone⟩ := of_decide_eq_true hPossible
        exact h.finish hStopped hCall hDone
    | fail read => exact { h with going := nofun, reads := nofun }
  · exact h

theorem Intact.run {events : List Event} :
    ∀ {s : Reader κ ω}, Intact C k s → Intact C k (s.run C events) := by
  induction events with
  | nil => exact fun h => h
  | cons event events ih => exact fun h => ih (h.step event)

theorem size_run {events : List Event} :
    ∀ {s : Reader κ ω}, (s.run C events).buffer.size = s.buffer.size := by
  induction events with
  | nil => exact rfl
  | cons event events ih =>
      intro s
      refine ih.trans ?_
      unfold Reader.step
      split
      · cases event <;> simp [act, onRead_eq, finish_eq]
      · rfl

/-- Bytes that arrive while a call copies are not what it copies. -/
example :
    let s : Reader Unit Unit := (new 2 ()).run ⟨fun _ _ => ((), ()), fun _ => true, true⟩
      [.arrive ⟨0, 0⟩ [1, 2], .complete ⟨0, 2⟩, .copy ⟨0, 2, []⟩ 1, .arrive ⟨1, 0⟩ [3, 4],
        .copy ⟨0, 2, [1]⟩ 1, .finish ⟨0, 2, [1, 2]⟩]
    s.processed = [[1, 2]] ∧ s.pending = [3, 4] := by decide

end Reader

/-! ## The session and the client -/

section

variable {σ : Type}

/-- The session handler, for a session that reads ahead. -/
def session (P : IRequestProcessor σ) : Consumer (SessionHandler × σ) (Outcome σ) where
  process k data :=
    let o := k.1.process P data k.2
    (o, o.handler, o.world)
  goesOn o := o.result = .Continue
  readsAhead := true

theorem calls_session (P : IRequestProcessor σ) (chunks : List Bytes) :
    ∀ (handler : SessionHandler) (w : σ),
      (session P).calls (handler, w) chunks = SessionHandler.calls P handler w chunks := by
  induction chunks with
  | nil => exact fun _ _ => rfl
  | cons chunk chunks ih => exact fun _ _ => congrArg _ (ih _ _)

/-- However bytes arrive, a session processes them in the order of their arrival, none twice and
none left out, and answers as on chunks that nothing else is written to; the rest is in its
buffers.  It processes nothing after it has aborted, and until then it is always reading. -/
theorem session_reads (P : IRequestProcessor σ) (inBufferSize bufferSize bufferLimit : Nat)
    (id : UInt32) (w : σ) (events : List Reader.Event) :
    let handler := SessionHandler.new bufferSize bufferLimit id
    let s := (Reader.new inBufferSize (handler, w)).run (session P) events
    s.stream = s.processed.flatten ++ s.chunk ++ s.pending ∧
      s.outcomes = SessionHandler.calls P handler w s.processed ∧
      (∀ data ∈ s.processed, data.length ≤ inBufferSize) ∧
      (∀ o ∈ s.outcomes.dropLast, o.result = .Continue) ∧
      (s.stopped = false → s.read.isSome) := by
  intro handler s
  have hIntact : Reader.Intact (session P) (handler, w) s := (Reader.Intact.new _ _ _).run
  refine ⟨hIntact.stream, ?_, fun data hData => ?_, ?_, ?_⟩
  · rw [hIntact.outcomes, calls_session]
  · exact (hIntact.fits data hData).trans_eq Reader.size_run
  · exact fun o ho => of_decide_eq_true (hIntact.goesOn o ho)
  · exact fun hStopped => (hIntact.reads hStopped).mpr (.inl rfl)

end

/-- The client, which processes before it reads on. -/
def client : Consumer Client Client.Outcome where
  process c data := (c.process data, (c.process data).client)
  goesOn o := !o.result
  readsAhead := false

theorem calls_client (chunks : List Bytes) :
    ∀ c : Client, client.calls c chunks = c.calls chunks := by
  induction chunks with
  | nil => exact fun _ => rfl
  | cons chunk chunks ih => exact fun _ => congrArg _ (ih _)

/-- The same of a client, which is reading or processing until it has what it wants. -/
theorem client_reads (c : Client) (events : List Reader.Event) :
    let s := (Reader.new Client.bufferSize c).run client events
    s.stream = s.processed.flatten ++ s.chunk ++ s.pending ∧
      s.outcomes = c.calls s.processed ∧
      (∀ data ∈ s.processed, data.length ≤ Client.bufferSize) ∧
      (∀ o ∈ s.outcomes.dropLast, o.result = false) ∧
      (s.stopped = false → (s.read.isSome ↔ s.call = none)) := by
  intro s
  have hIntact : Reader.Intact client c s := (Reader.Intact.new _ _ _).run
  refine ⟨hIntact.stream, ?_, fun data hData => ?_, ?_, ?_⟩
  · rw [hIntact.outcomes, calls_client]
  · exact (hIntact.fits data hData).trans_eq Reader.size_run
  · exact fun o ho => Bool.not_eq_true' _ ▸ hIntact.goesOn o ho
  · exact fun hStopped => (hIntact.reads hStopped).trans (or_iff_right Bool.false_ne_true)

end Kexplorer.Server

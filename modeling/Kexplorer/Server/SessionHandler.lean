import Kexplorer.Props.PropertyBag
import Kexplorer.Util.Receive

/-!
# The server's session handler

`SessionHandler::process` is called with every chunk that arrives on a
connection.  It collects a request, hands the complete text to the request
processor, and answers whether the connection is to be kept.

A call is modelled together with what an observer sees of it (`Outcome`): the
pair returned, the pointer and length given to the request processor, the
message logged.  `calls` is the run over a sequence of chunks, and `pending`
is what the observer expects to be buffered: the bytes received since the last
call that dispatched or aborted.

`calls_refine` connects a run with the abstract framer.
-/

namespace Kexplorer.Server

open Kexplorer.Lib Kexplorer.Util

/-- The request processor a handler reports to: session, memory behind the
pointer, length and its own state go in, the response and the new state come
out.  The one implementation catches every `std::exception`, so that `process`
always returns. -/
structure IRequestProcessor (σ : Type*) where
  process : UInt32 → Bytes → Nat → σ → Except Bytes Bytes × σ
  returns : ∀ sessionId request length w,
    ∃ response, (process sessionId request length w).1 = .ok response

/-- `m_id`, and `m_buffer` with its two counters. -/
structure SessionHandler where
  id : UInt32
  receiver : Receiver

/-- What a call of `process` does. -/
structure Outcome (σ : Type*) where
  result : CallbackResult
  response : Bytes
  /-- The pointer and the length given to `requestProcessor->process`. -/
  dispatched : Option (Bytes × Nat)
  /-- The exception text written to the log. -/
  logged : Option Bytes
  handler : SessionHandler
  world : σ

namespace SessionHandler

variable {σ : Type*}

/-- A handler as constructed. -/
def new (bufferSize bufferLimit : Nat) (id : UInt32) : SessionHandler :=
  ⟨id, .new bufferSize bufferLimit⟩

/-- The `catch` block: log, reset, and ask the server to drop the connection. -/
def abort (s : SessionHandler) (what : Bytes) (receiver : Receiver)
    (dispatched : Option (Bytes × Nat)) (world : σ) : Outcome σ where
  result := .Abort
  response := []
  dispatched := dispatched
  logged := some what
  handler := { s with receiver := receiver.reset }
  world := world

/-- `SessionHandler::process`.  The processor may overwrite the text it is
given; nobody reads it again, because `consume` drops it. -/
def process (P : IRequestProcessor σ) (s : SessionHandler) (data : Bytes) (w : σ) : Outcome σ :=
  match s.receiver.receive data with
  | .thrown what r => s.abort what r none w
  | .more r =>
      { result := .Continue, response := [], dispatched := none, logged := none,
        handler := { s with receiver := r }, world := w }
  | .complete r length =>
      match P.process s.id r.buffer.data length w with
      | (.error what, w') => s.abort what r (some (r.buffer.data, length)) w'
      | (.ok response, w') =>
          { result := .Continue, response, dispatched := some (r.buffer.data, length),
            logged := none, handler := { s with receiver := r.consume length }, world := w' }

/-- The calls made for a sequence of chunks. -/
def calls (P : IRequestProcessor σ) : SessionHandler → σ → List Bytes → List (Outcome σ)
  | _, _, [] => []
  | s, w, chunk :: chunks =>
      let o := s.process P chunk w
      o :: calls P o.handler o.world chunks

/-- The handler and the processor's state after a sequence of chunks. -/
def after (P : IRequestProcessor σ) : SessionHandler → σ → List Bytes → SessionHandler × σ
  | s, w, [] => (s, w)
  | s, w, chunk :: chunks =>
      let o := s.process P chunk w
      after P o.handler o.world chunks

end SessionHandler

namespace Outcome

variable {σ : Type*}

/-- The bytes received since the last dispatch or abort, when `held` was
received before and during this call. -/
def pending (o : Outcome σ) (held : Bytes) : Bytes :=
  if o.result = .Abort ∨ o.dispatched.isSome then [] else held

/-- The text dispatched: as many bytes behind the pointer as the length says. -/
def text? (o : Outcome σ) : Option Bytes :=
  o.dispatched.map fun (request, length) => request.take length

/-- What the peer of a handler sees of a call: the answer and the text
dispatched. -/
def seen (o : Outcome σ) : CallbackResult × Option Bytes := (o.result, o.text?)

/-- A verdict of the framer as an answer of the handler. -/
def answer : Verdict UInt8 → CallbackResult × Option Bytes
  | .wait => (.Continue, none)
  | .complete text => (.Continue, some text)
  | .reject => (.Abort, none)

theorem answer_injective : Function.Injective answer := by
  intro v v' h
  cases v <;> cases v' <;> simp_all [answer]

variable {o : Outcome σ} {v : Verdict UInt8}

theorem result_eq_abort_iff (h : o.seen = answer v) : o.result = .Abort ↔ v = .reject := by
  rw [show o.result = (answer v).1 from congrArg Prod.fst h]
  cases v <;> simp [answer]

theorem text_eq (h : o.seen = answer v) : o.text? = v.text? := by
  rw [show o.text? = (answer v).2 from congrArg Prod.snd h]
  cases v <;> rfl

theorem isSome_dispatched (h : o.seen = answer v) :
    o.dispatched.isSome ↔ ∃ text, v = .complete text := by
  have hText : o.dispatched.isSome = v.text?.isSome := by
    rw [← text_eq h, text?, Option.isSome_map]
  rw [hText]
  cases v <;> simp [Verdict.text?]

/-- The observer's `pending` is what the framer keeps. -/
theorem pending_eq_keep (h : o.seen = answer v) (held : Bytes) : o.pending held = v.keep held := by
  have hAnswered : (o.result = .Abort ∨ o.dispatched.isSome) ↔ v ≠ .wait := by
    rw [result_eq_abort_iff h, isSome_dispatched h]
    cases v <;> simp
  rw [pending]
  split_ifs with hDone
  · have := hAnswered.mp hDone
    cases v <;> simp_all [Verdict.keep]
  · rw [not_ne_iff.mp (mt hAnswered.mpr hDone)]
    rfl

end Outcome

namespace SessionHandler

variable {σ : Type*} {P : IRequestProcessor σ}

/-- The bytes received since the last dispatch or abort, at the end of a run
before which `held` was received. -/
def pendingAfter (P : IRequestProcessor σ) :
    SessionHandler → σ → Bytes → List Bytes → Bytes
  | _, _, held, [] => held
  | s, w, held, chunk :: chunks =>
      let o := s.process P chunk w
      pendingAfter P o.handler o.world (o.pending (held ++ chunk)) chunks

/-! ## One call -/

/-- A handler with room for `bound` bytes holds `pending`, and its counters are
those of `pending`. -/
structure Holds (bound : Nat) (pending : Bytes) (s : SessionHandler) : Prop where
  tracked : s.receiver.Tracked
  contents : s.receiver.buffer.contents = pending
  room : s.receiver.buffer.bound = bound

theorem holds_new (bufferSize bufferLimit : Nat) (id : UInt32) :
    Holds (max bufferSize bufferLimit) [] (new bufferSize bufferLimit id) where
  tracked := Receiver.tracked_new bufferSize bufferLimit
  contents := ContinuousBuffer.contents_new bufferSize bufferLimit
  room := ContinuousBuffer.bound_new bufferSize bufferLimit

/-- The counters of a handler that holds nothing are zero. -/
theorem Holds.counters {bound : Nat} {s : SessionHandler} (h : Holds bound [] s) :
    s.receiver.jsonDepth = 0 ∧ s.receiver.jsonDepthMax = 0 := by
  have hTracks := h.tracked
  rw [Receiver.Tracked, h.contents] at hTracks
  exact hTracks.unique .nil

/-- What a call does to a handler with room for `bound` bytes, when the bytes
received are `held` and the framer's verdict on them is `v`. -/
structure ProcessSpec (bound : Nat) (held : Bytes) (v : Verdict UInt8) (o : Outcome σ) :
    Prop where
  seen : o.seen = Outcome.answer v
  holds : Holds bound (v.keep held) o.handler
  request : ∀ request length, o.dispatched = some (request, length) →
    length = held.length ∧ request.take length = held ∧
      (length < bound → ∃ rest, request = held ++ 0 :: rest)

theorem process_spec {bound : Nat} {pending : Bytes} {s : SessionHandler}
    (hs : Holds bound pending s) (data : Bytes) (w : σ) :
    ProcessSpec bound (pending ++ data) ((Receiver.framer bound).verdict pending data)
      (s.process P data w) := by
  obtain ⟨hTracked, rfl, rfl⟩ := hs
  have hSpec := Receiver.receive_spec hTracked data
  rw [process]
  rcases hr : s.receiver.receive data with ⟨what, r⟩ | r | ⟨r, length⟩ <;> rw [hr] at hSpec
  · obtain ⟨hVerdict, hRoom, -⟩ := hSpec
    rw [hVerdict]
    exact
      { seen := rfl
        holds := ⟨Receiver.tracked_reset r, ContinuousBuffer.contents_reset r.buffer, hRoom⟩
        request := fun _ _ h => by simp [abort] at h }
  · obtain ⟨hVerdict, hRoom, hContents, hTracked'⟩ := hSpec
    rw [hVerdict]
    exact
      { seen := rfl
        holds := ⟨hTracked', hContents, hRoom⟩
        request := fun _ _ h => by simp at h }
  · obtain ⟨hVerdict, hRoom, hLength, hText, hLe, hTerm, hDepth⟩ := hSpec
    obtain ⟨hEmpty, hDepth', hMax', hRoom'⟩ := Receiver.consume_spec hLe hDepth
    rw [hVerdict]
    dsimp only
    obtain ⟨response, hResponse⟩ := P.returns s.id r.buffer.data length w
    rcases hP : P.process s.id r.buffer.data length w with ⟨what | reply, w'⟩
    · simp [hP] at hResponse
    · exact
        { seen := congrArg (fun text => (CallbackResult.Continue, some text)) hText
          holds := ⟨Receiver.tracked_of_empty hEmpty hDepth' hMax', hEmpty, hRoom'.trans hRoom⟩
          request := by
            intro request length' h
            obtain ⟨rfl, rfl⟩ : r.buffer.data = request ∧ length = length' := by
              simpa using h
            refine ⟨hLength, hText, fun hLt => ?_⟩
            obtain ⟨rest, hRest⟩ := r.buffer.contents_prefix_data
            exact ⟨rest, by rw [← hRest, hTerm hLt, List.append_assoc, List.singleton_append]⟩ }

/-! ## Runs -/

/-- What the handler holds after a run is what was received since the last
dispatch or abort. -/
theorem holds_after {bound : Nat} (chunks : List Bytes) :
    ∀ {pending : Bytes} {s : SessionHandler}, Holds bound pending s → ∀ w : σ,
      Holds bound (pendingAfter P s w pending chunks) (after P s w chunks).1 := by
  induction chunks with
  | nil => exact fun hs _ => hs
  | cons chunk chunks ih =>
      intro pending s hs w
      have hStep := process_spec (P := P) hs chunk w
      rw [after, pendingAfter]
      apply ih
      rw [Outcome.pending_eq_keep hStep.seen]
      exact hStep.holds

/-- The answers of a run are the framer's verdicts. -/
theorem calls_refine {bound : Nat} (chunks : List Bytes) :
    ∀ {pending : Bytes} {s : SessionHandler}, Holds bound pending s → ∀ w : σ,
      (calls P s w chunks).map Outcome.seen =
        ((Receiver.framer bound).verdicts pending chunks).map Outcome.answer := by
  induction chunks with
  | nil => exact fun _ _ => rfl
  | cons chunk chunks ih =>
      intro pending s hs w
      have hStep := process_spec (P := P) hs chunk w
      simp only [calls, List.map_cons, Framer.verdicts, hStep.seen]
      exact congrArg _ (ih hStep.holds _)

/-- The texts dispatched in a run. -/
def dispatches (P : IRequestProcessor σ) (s : SessionHandler) (w : σ) (chunks : List Bytes) :
    List Bytes :=
  (calls P s w chunks).filterMap Outcome.text?

theorem dispatches_refine {bound : Nat} {pending : Bytes} {s : SessionHandler}
    (hs : Holds bound pending s) (w : σ) (chunks : List Bytes) :
    dispatches P s w chunks = (Receiver.framer bound).texts pending chunks := by
  have hSeen := congrArg (List.filterMap Prod.snd) (calls_refine (P := P) chunks hs w)
  rw [List.filterMap_map, List.filterMap_map] at hSeen
  have hAnswer : Prod.snd ∘ Outcome.answer = Verdict.text? := by
    funext v
    cases v <;> rfl
  rwa [hAnswer] at hSeen

/-! ## The contract of a call -/

/-- The contract of a call on a chunk, when `held` is what the observer counts
as received, this chunk included. -/
structure Contract (bound : Nat) (chunk held : Bytes) (o : Outcome σ) : Prop where
  buffer : o.handler.receiver.buffer.contents = o.pending held
  jsonDepth : (o.handler.receiver.jsonDepth : Int) =
    braces.opens (o.pending held) - braces.closes (o.pending held)
  jsonDepthMax : IsGreatest
    {d : Int | ∃ p, p <+: o.pending held ∧ (braces.opens p : Int) - braces.closes p = d}
    o.handler.receiver.jsonDepthMax
  /-- Every prefix of what was scanned and kept opens at least what it closes:
  the scanner's `decrement` was only reached with a positive depth. -/
  nonneg : ∀ p, p <+: o.pending held → braces.closes p ≤ braces.opens p
  dispatches : o.dispatched.isSome ↔
    chunk ≠ [] ∧ o.result = .Continue ∧ braces.opens held = braces.closes held ∧
      ∃ p, p <+: held ∧ braces.closes p < braces.opens p
  text : ∀ request length, o.dispatched = some (request, length) →
    length = held.length ∧ request.take length = held
  aborts : o.result = .Abort ↔
    (∃ p, p <+: held ∧ braces.opens p < braces.closes p) ∨ bound < held.length
  emptied : o.dispatched.isSome ∨ o.result = .Abort →
    o.handler.receiver.buffer.contents = [] ∧ o.handler.receiver.jsonDepth = 0 ∧
      o.handler.receiver.jsonDepthMax = 0

/-- The framer's reasons to reject, counted out. -/
theorem rejects_iff {bound : Nat} {held : Bytes} :
    (Receiver.framer bound).Rejects held ↔
      (∃ p, p <+: held ∧ braces.opens p < braces.closes p) ∨ bound < held.length := by
  rw [Framer.Rejects, or_comm]
  refine or_congr ?_ Iff.rfl
  simp only [Brackets.NeverCloses, Receiver.framer, not_forall, exists_prop, Brackets.depth]
  exact exists_congr fun p => and_congr_right fun _ => by omega

/-- The framer's test for a complete text, counted out. -/
theorem complete_iff {bound : Nat} {held : Bytes} :
    (Receiver.framer bound).Complete held ↔
      braces.opens held = braces.closes held ∧
        ∃ p, p <+: held ∧ braces.closes p < braces.opens p := by
  simp only [Framer.Complete, Receiver.framer, Brackets.depth]
  exact and_congr (by omega) (exists_congr fun p => and_congr_right fun _ => by omega)

/-- What was held before a chunk is not rejected by itself. -/
theorem Holds.not_rejects {bound : Nat} {pending : Bytes} {s : SessionHandler}
    (hs : Holds bound pending s) : ¬ (Receiver.framer bound).Rejects pending := by
  obtain ⟨hTracked, rfl, rfl⟩ := hs
  rintro (hLong | hNeg)
  · have hLe := s.receiver.buffer.used_le_bound
    rw [ContinuousBuffer.length_contents] at hLong
    exact absurd hLong (Nat.not_lt.mpr hLe)
  · exact hNeg hTracked.neverCloses

/-- The contract of one call. -/
theorem contract_of_holds {bound : Nat} {pending : Bytes} {s : SessionHandler}
    (hs : Holds bound pending s) (chunk : Bytes) (w : σ) :
    Contract bound chunk (pending ++ chunk) (s.process P chunk w) := by
  have hSpec := process_spec (P := P) hs chunk w
  generalize s.process P chunk w = o at hSpec ⊢
  have hSeen := hSpec.seen
  have hHolds : Holds bound (o.pending (pending ++ chunk)) o.handler := by
    rw [Outcome.pending_eq_keep hSeen]
    exact hSpec.holds
  have hTracks := hHolds.tracked
  rw [Receiver.Tracked, hHolds.contents] at hTracks
  have hAborts : o.result = .Abort ↔ (Receiver.framer bound).Rejects (pending ++ chunk) := by
    rw [Outcome.result_eq_abort_iff hSeen, Framer.verdict_eq_reject_iff]
    refine ⟨fun h => h.2, fun h => ⟨?_, h⟩⟩
    rintro rfl
    exact hs.not_rejects (by simpa using h)
  have hContinue : o.result = .Continue ↔ ¬ (Receiver.framer bound).Rejects (pending ++ chunk) := by
    rw [← hAborts]
    cases o.result <;> simp
  exact
    { buffer := hHolds.contents
      jsonDepth := hTracks.depth.symm
      jsonDepthMax := hTracks.peak
      nonneg := fun p hp => by
        have := hTracks.neverCloses p hp
        rw [Brackets.depth] at this
        omega
      dispatches := by
        rw [Outcome.isSome_dispatched hSeen, hContinue, ← @complete_iff bound]
        simp only [Framer.verdict_eq_complete_iff, exists_and_left, exists_eq, and_true]
      text := fun request length h => ⟨(hSpec.request _ _ h).1, (hSpec.request _ _ h).2.1⟩
      aborts := hAborts.trans rejects_iff
      emptied := fun h => by
        have hNil : o.pending (pending ++ chunk) = [] := if_pos h.symm
        rw [hNil] at hHolds
        exact ⟨hHolds.contents, hHolds.counters⟩ }

/-- In every run, on every next chunk, `process` keeps its contract. -/
theorem process_run (P : IRequestProcessor σ) (bufferSize bufferLimit : Nat) (id : UInt32)
    (w : σ) (chunks : List Bytes) (chunk : Bytes) :
    let s := new bufferSize bufferLimit id
    Contract (max bufferSize bufferLimit) chunk (pendingAfter P s w [] chunks ++ chunk)
      ((after P s w chunks).1.process P chunk (after P s w chunks).2) :=
  contract_of_holds (holds_after chunks (holds_new bufferSize bufferLimit id) w) chunk _

end SessionHandler

end Kexplorer.Server

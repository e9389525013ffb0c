import Kexplorer.Util.Receive

/-!
# The client's receiving side

`Client::process` collects a response in the way in which the server collects a
request, and differs in the end: the text is printed, nothing is reset after an
exception, and `true` says that the client reads no further, whether it has a
response or has given up.

`takes_iff` says which cuts of a response the client takes.
-/

namespace Kexplorer.Kesctl

open Kexplorer.Lib Kexplorer.Util

/-- `m_bufferIn`, `m_jsonDepth` and `m_jsonDepthMax`. -/
structure Client where
  receiver : Receiver

namespace Client

/-- `kBufferSize`. -/
def bufferSize : Nat := 65536

/-- `kBufferLimit`. -/
def bufferLimit : Nat := 64 * 1024 * 1024

/-- A client as constructed. -/
def new : Client := ⟨.new bufferSize bufferLimit⟩

/-- `Client::reset`. -/
def reset (c : Client) : Client := ⟨c.receiver.reset⟩

/-- What a call of `process` does. -/
structure Outcome where
  result : Bool
  /-- The text given to `processJson`. -/
  processed : Option Bytes
  /-- The exception text written to `m_cerr`. -/
  complained : Option Bytes
  client : Client

/-- `Client::process`. -/
def process (c : Client) (data : Bytes) : Outcome :=
  match c.receiver.receive data with
  | .thrown what r =>
      { result := true, processed := none, complained := some what, client := ⟨r⟩ }
  | .more r => { result := false, processed := none, complained := none, client := ⟨r⟩ }
  | .complete r length =>
      { result := true, processed := some (r.buffer.data.take length), complained := none,
        client := ⟨r.consume length⟩ }

/-- The calls made for a sequence of chunks. -/
def calls : Client → List Bytes → List Outcome
  | _, [] => []
  | c, chunk :: chunks => c.process chunk :: calls (c.process chunk).client chunks

/-- What is seen of a call: the answer and the text processed. -/
def Outcome.seen (o : Outcome) : Bool × Option Bytes := (o.result, o.processed)

/-- Every chunk is answered with `false` except the last one, which processes the response and
is answered with `true`. -/
def Accepts (c : Client) (response : Bytes) (chunks : List Bytes) : Prop :=
  (c.calls chunks).map Outcome.seen =
    List.replicate (chunks.length - 1) (false, none) ++ [(true, some response)]

/-- The clients that calls of `process` and `reset` lead to. -/
inductive Reachable : Client → Prop
  | new : Reachable new
  | process {c : Client} (data : Bytes) : Reachable c → Reachable (c.process data).client
  | reset {c : Client} : Reachable c → Reachable c.reset

/-! ## One call -/

/-- A verdict of the framer as an answer of the client. -/
def Outcome.answer : Verdict UInt8 → Bool × Option Bytes
  | .wait => (false, none)
  | .complete text => (true, some text)
  | .reject => (true, none)

theorem Outcome.answer_injective : Function.Injective Outcome.answer := by
  intro v v' h
  cases v <;> cases v' <;> simp_all [Outcome.answer]

/-- A client with room for `bound` bytes holds `pending`, and its counters are
those of `pending`. -/
structure Holds (bound : Nat) (pending : Bytes) (c : Client) : Prop where
  tracked : c.receiver.Tracked
  contents : c.receiver.buffer.contents = pending
  room : c.receiver.buffer.bound = bound

/-- The client answers with the framer's verdict, and unless that is a rejection it holds what
the framer keeps. -/
theorem process_spec {bound : Nat} {pending : Bytes} {c : Client} (hc : Holds bound pending c)
    (data : Bytes) :
    (c.process data).seen = Outcome.answer ((Receiver.framer bound).verdict pending data) ∧
      ((Receiver.framer bound).verdict pending data = .wait →
        Holds bound (pending ++ data) (c.process data).client) := by
  obtain ⟨hTracked, rfl, rfl⟩ := hc
  have hSpec := Receiver.receive_spec hTracked data
  rw [process]
  rcases hr : c.receiver.receive data with ⟨what, r⟩ | r | ⟨r, length⟩ <;> rw [hr] at hSpec
  · obtain ⟨hVerdict, -, -⟩ := hSpec
    rw [hVerdict]
    exact ⟨rfl, nofun⟩
  · obtain ⟨hVerdict, hRoom, hContents, hTracked'⟩ := hSpec
    rw [hVerdict]
    exact ⟨rfl, fun _ => ⟨hTracked', hContents, hRoom⟩⟩
  · obtain ⟨hVerdict, -, -, hText, -, -, -⟩ := hSpec
    rw [hVerdict]
    exact ⟨congrArg (fun text => (true, some text)) hText, nofun⟩

/-- The room never changes. -/
theorem bound_process (c : Client) (data : Bytes) :
    (c.process data).client.receiver.buffer.bound = c.receiver.buffer.bound := by
  have hReceive := c.receiver.bound_receive data
  rw [process]
  rcases hr : c.receiver.receive data with ⟨what, r⟩ | r | ⟨r, length⟩ <;> rw [hr] at hReceive
  · exact hReceive
  · exact hReceive
  · exact (r.buffer.bound_pop (length + 1)).trans hReceive

theorem Reachable.bound {c : Client} (h : Reachable c) :
    c.receiver.buffer.bound = bufferLimit := by
  induction h with
  | new => exact ContinuousBuffer.bound_new _ _
  | process data _ ih => rw [bound_process, ih]
  | reset _ ih => exact (ContinuousBuffer.bound_reset _).trans ih

theorem Reachable.holds_reset {c : Client} (h : Reachable c) : Holds bufferLimit [] c.reset where
  tracked := Receiver.tracked_reset c.receiver
  contents := ContinuousBuffer.contents_reset _
  room := (ContinuousBuffer.bound_reset _).trans h.bound

/-! ## A response in pieces -/

/-- The client takes a text as the framer does. -/
theorem accepts_iff_verdicts {bound : Nat} {text : Bytes} (chunk : Bytes) (chunks : List Bytes) :
    ∀ {pending : Bytes} {c : Client}, Holds bound pending c →
      (c.Accepts text (chunk :: chunks) ↔
        (Receiver.framer bound).verdicts pending (chunk :: chunks) =
          List.replicate chunks.length .wait ++ [.complete text]) := by
  induction chunks generalizing chunk with
  | nil =>
      intro pending c hc
      have hSeen := (process_spec hc chunk).1
      have hText : (true, some text) = Outcome.answer (.complete text) := rfl
      simp only [Accepts, calls, List.map_cons, List.map_nil, hSeen, Framer.verdicts,
        List.length_cons, List.length_nil, Nat.zero_add, Nat.sub_self, List.replicate_zero,
        List.nil_append, List.cons.injEq, and_true]
      rw [hText]
      exact Outcome.answer_injective.eq_iff
  | cons next chunks ih =>
      intro pending c hc
      obtain ⟨hSeen, hKeep⟩ := process_spec hc chunk
      have hWait : (false, none) = Outcome.answer .wait := rfl
      have hStep : c.Accepts text (chunk :: next :: chunks) ↔
          (Receiver.framer bound).verdict pending chunk = .wait ∧
            (c.process chunk).client.Accepts text (next :: chunks) := by
        simp only [Accepts, calls, List.map_cons, hSeen, List.length_cons, Nat.add_sub_cancel,
          List.replicate_succ, List.cons_append, List.cons.injEq]
        rw [hWait, Outcome.answer_injective.eq_iff]
      rw [hStep, Framer.verdicts, List.length_cons, List.replicate_succ, List.cons_append,
        List.cons.injEq]
      refine and_congr_right fun hv => ?_
      rw [hv]
      exact ih next (hKeep hv)

/-- A freshly reset client takes a response that starts with a brace, cut in some way, if and
only if its braces are balanced without regard to strings and no inner chunk ends where they
are. -/
theorem takes_iff {c : Client} (hc : Reachable c) {t : Bytes}
    (hLen : (0x7B :: t).length ≤ bufferLimit) {chunks : List Bytes}
    (hNe : ∀ c ∈ chunks, c ≠ []) (hCut : chunks.flatten = 0x7B :: t) :
    c.reset.Accepts (0x7B :: t) chunks ↔ CutAt (0x7B :: t) chunks := by
  cases chunks with
  | nil => simp at hCut
  | cons chunk chunks =>
      rw [accepts_iff_verdicts chunk chunks hc.holds_reset,
        Framer.verdicts_eq_iff (F := Receiver.framer bufferLimit) (by rfl) hLen chunk chunks [] hNe
          (by simpa using hCut)]
      simp only [CutAt, List.nil_append, List.length_cons, Nat.lt_succ_iff]
      rfl

end Client

end Kexplorer.Kesctl

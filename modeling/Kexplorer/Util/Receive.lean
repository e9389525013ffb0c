import Kexplorer.Lib.Framer
import Kexplorer.Util.ContinuousBuffer

/-!
# Collecting a JSON text from chunks

`SessionHandler::process` and `Client::process` share, statement for
statement, the part that appends a chunk to the buffer, scans it for braces
and decides whether a text is complete; they differ in what they do with a
complete text and with an exception.  The shared part is `receive` here, and
`consume` is the clean-up after a complete text was handled.

`receive_spec` connects it with the abstract framer: as long as the counters
track the buffered bytes, `receive` answers with the framer's verdict, and the
counters track what is buffered afterwards.
-/

namespace Kexplorer.Util

open Kexplorer.Lib

/-- The braces of JSON. -/
def braces : Brackets UInt8 where
  isOpen c := c == 0x7B
  isClose c := c == 0x7D
  disjoint := by
    intro a ha
    rw [beq_iff_eq.mp ha]
    rfl

/-- `m_buffer`, `m_jsonDepth` and `m_jsonDepthMax`. -/
structure Receiver where
  buffer : ContinuousBuffer
  jsonDepth : Nat
  jsonDepthMax : Nat

/-- `--m_jsonDepth`, which the scanner only reaches with a positive depth. -/
def decrement (depth : Nat) (_ : depth ≠ 0) : Nat := depth - 1

/-- The `while (cur < end)` loop over the bytes of a chunk, on the two
counters.  An error is the exception for a brace that closes nothing, with the
counters as they were then. -/
def scan : Bytes → Nat → Nat → Except (Nat × Nat) (Nat × Nat)
  | [], depth, depthMax => .ok (depth, depthMax)
  | cur :: rest, depth, depthMax =>
      if cur = 0x7B then
        scan rest (depth + 1) (if depth + 1 > depthMax then depth + 1 else depthMax)
      else if cur = 0x7D then
        if h : depth = 0 then .error (depth, depthMax)
        else scan rest (decrement depth h) depthMax
      else
        scan rest depth depthMax

/-- How the shared part of `process` ends. -/
inductive Received
  /-- An exception with its message. -/
  | thrown (what : Bytes) (s : Receiver)
  /-- Nothing to process yet. -/
  | more (s : Receiver)
  /-- A text of `length` bytes lies behind `data()`, a NUL behind it if there
  was room for one. -/
  | complete (s : Receiver) (length : Nat)

/-- The receiver an ending leaves behind. -/
def Received.receiver : Received → Receiver
  | .thrown _ s => s
  | .more s => s
  | .complete s _ => s

namespace Receiver

/-- A receiver as constructed. -/
def new (size limit : Nat) : Receiver := ⟨.new size limit, 0, 0⟩

/-- The receiver after everything it holds was dropped. -/
def reset (s : Receiver) : Receiver := ⟨s.buffer.reset, 0, 0⟩

/-- Push the chunk, scan it, and see whether the text is complete. -/
def receive (s : Receiver) (data : Bytes) : Received :=
  let posPrev := s.buffer.used
  match s.buffer.push data with
  | (false, buffer) => .thrown (ascii "Packet size exceeds limit") { s with buffer }
  | (true, buffer) =>
      let posCur := buffer.used
      if posCur = posPrev then
        .more { s with buffer }
      else
        match scan ((buffer.data.take posCur).drop posPrev) s.jsonDepth s.jsonDepthMax with
        | .error (depth, depthMax) => .thrown (ascii "Invalid JSON") ⟨buffer, depth, depthMax⟩
        | .ok (depth, depthMax) =>
            if depth = 0 then
              if depthMax = 0 then
                .more ⟨buffer, depth, depthMax⟩
              else
                -- append '\0'; the result of this push is ignored
                .complete ⟨(buffer.push [0]).2, depth, depthMax⟩ posCur
            else
              .more ⟨buffer, depth, depthMax⟩

/-- Drop a handled text and its terminator. -/
def consume (s : Receiver) (length : Nat) : Receiver :=
  ⟨(s.buffer.pop (length + 1)).2, s.jsonDepth, 0⟩

/-! ## The scanner -/

theorem isOpen_iff {c : UInt8} : braces.isOpen c = true ↔ c = 0x7B := beq_iff_eq

theorem isClose_iff {c : UInt8} : braces.isClose c = true ↔ c = 0x7D := beq_iff_eq

/-- The scanner keeps the counters on the word read so far, or stops because
that word starts to close too much. -/
def ScanSpec (word : Bytes) : Except (Nat × Nat) (Nat × Nat) → Prop
  | .ok (depth, depthMax) => braces.Tracks word depth depthMax
  | .error _ => ¬ braces.NeverCloses word

theorem scan_spec (rest : Bytes) :
    ∀ (read : Bytes) (depth depthMax : Nat), braces.Tracks read depth depthMax →
      ScanSpec (read ++ rest) (scan rest depth depthMax) := by
  induction rest with
  | nil =>
      intro read depth depthMax h
      simpa [scan, ScanSpec] using h
  | cons cur rest ih =>
      intro read depth depthMax h
      rw [← List.singleton_append, ← List.append_assoc, List.singleton_append, scan]
      by_cases ho : cur = 0x7B
      · have hmax : (if depth + 1 > depthMax then depth + 1 else depthMax) =
            max (depth + 1) depthMax := by
          rw [max_def]
          split <;> split <;> omega
        rw [if_pos ho, hmax]
        exact ih _ _ _ (h.concat_open (isOpen_iff.mpr ho))
      · rw [if_neg ho]
        have ho' : braces.isOpen cur = false := by simp [braces, ho]
        by_cases hc : cur = 0x7D
        · rw [if_pos hc]
          by_cases h0 : depth = 0
          · subst h0
            rw [dif_pos rfl]
            intro hn
            exact h.not_neverCloses_concat_close (isClose_iff.mpr hc)
              (hn.of_prefix (List.prefix_append _ rest))
          · obtain ⟨d, rfl⟩ : ∃ d, depth = d + 1 := ⟨depth - 1, by omega⟩
            rw [dif_neg h0]
            exact ih _ _ _ (h.concat_close (isClose_iff.mpr hc))
        · have hc' : braces.isClose cur = false := by simp [braces, hc]
          rw [if_neg hc]
          exact ih _ _ _ (h.concat_other ho' hc')

/-! ## The receiver refines the framer -/

/-- What a receiver with room for `bound` bytes is for. -/
def framer (bound : Nat) : Framer UInt8 := ⟨braces, bound⟩

/-- The counters are those of the buffered bytes. -/
def Tracked (s : Receiver) : Prop := braces.Tracks s.buffer.contents s.jsonDepth s.jsonDepthMax

/-- A receiver without bytes and with zero counters is tracked. -/
theorem tracked_of_empty {s : Receiver} (hContents : s.buffer.contents = [])
    (hDepth : s.jsonDepth = 0) (hMax : s.jsonDepthMax = 0) : s.Tracked := by
  rw [Tracked, hContents, hDepth, hMax]
  exact .nil

theorem tracked_new (size limit : Nat) : (new size limit).Tracked :=
  tracked_of_empty (ContinuousBuffer.contents_new size limit) rfl rfl

theorem tracked_reset (s : Receiver) : s.reset.Tracked :=
  tracked_of_empty s.buffer.contents_reset rfl rfl

/-- `receive` answers with the framer's verdict on `held`, the buffered bytes
with the chunk behind them. -/
def ReceiveSpec (bound : Nat) (pending held : Bytes) (verdict : Verdict UInt8) :
    Received → Prop
  | .thrown _ s => verdict = .reject ∧ s.buffer.bound = bound ∧ pending <+: s.buffer.contents
  | .more s =>
      verdict = .wait ∧ s.buffer.bound = bound ∧ s.buffer.contents = held ∧ s.Tracked
  | .complete s length =>
      verdict = .complete held ∧ s.buffer.bound = bound ∧ length = held.length ∧
        s.buffer.data.take length = held ∧ s.buffer.contents.length ≤ length + 1 ∧
        (length < bound → s.buffer.contents = held ++ [0]) ∧ s.jsonDepth = 0

/-- A word the counters track is complete when they say so. -/
theorem complete_iff_of_tracks {bound : Nat} {word : Bytes} {depth depthMax : Nat}
    (h : braces.Tracks word depth depthMax) :
    (framer bound).Complete word ↔ depth = 0 ∧ 0 < depthMax := by
  have hdepth : braces.depth word = 0 ↔ depth = 0 := by rw [h.depth]; omega
  constructor
  · rintro ⟨h0, p, hp, hpos⟩
    exact ⟨hdepth.mp h0, h.peak_pos hp hpos⟩
  · rintro ⟨h0, hpos⟩
    obtain ⟨p, hp, hpeak⟩ := h.peak.1
    exact ⟨hdepth.mpr h0, p, hp, by rw [show (framer bound).brackets = braces from rfl]; omega⟩

/-- The terminator goes behind a complete text if there is room; the text
itself stays in front either way. -/
theorem push_terminator (b : ContinuousBuffer) :
    (b.push [0]).2.data.take b.used = b.contents ∧
      (b.push [0]).2.contents.length ≤ b.used + 1 ∧
      (b.used < b.bound → (b.push [0]).2.contents = b.contents ++ [0]) := by
  have hpre := b.contents_prefix_push [0]
  refine ⟨?_, ?_, fun hlt => (b.push_of_le (by simp; omega)).2⟩
  · rw [← b.length_contents]
    exact (List.prefix_iff_eq_take.mp (hpre.trans (b.push [0]).2.contents_prefix_data)).symm
  · rcases b.push_spec [0] with ⟨-, -, h, -⟩ | ⟨-, -, h, -⟩ <;> rw [h] <;> simp

/-- The verdict on a chunk that fits and that the scanner accepts. -/
theorem verdict_of_tracks {bound : Nat} {pending data : Bytes} {depth depthMax : Nat}
    (hdata : data ≠ []) (hfits : (pending ++ data).length ≤ bound)
    (h : braces.Tracks (pending ++ data) depth depthMax) :
    (framer bound).verdict pending data =
      if depth = 0 ∧ 0 < depthMax then .complete (pending ++ data) else .wait := by
  have hok : ¬ (framer bound).Rejects (pending ++ data) := by
    rintro (hlong | hneg)
    · exact absurd hfits (Nat.not_le.mpr hlong)
    · exact hneg h.neverCloses
  split
  case isTrue hc =>
    exact Framer.verdict_eq_complete_iff.mpr
      ⟨hdata, hok, (complete_iff_of_tracks h).mpr hc, rfl⟩
  case isFalse hc =>
    exact Framer.verdict_eq_wait_iff.mpr fun _ => ⟨hok, mt (complete_iff_of_tracks h).mp hc⟩

/-- The part of `receive` behind a successful push of a non-empty chunk. -/
theorem receive_spec_of_pushed {s : Receiver} (hs : s.Tracked) {data : Bytes}
    {buffer : ContinuousBuffer} (hpush : s.buffer.push data = (true, buffer))
    (hfits : s.buffer.used + data.length ≤ s.buffer.bound)
    (hcont : buffer.contents = s.buffer.contents ++ data) :
    ReceiveSpec s.buffer.bound s.buffer.contents (s.buffer.contents ++ data)
      ((framer s.buffer.bound).verdict s.buffer.contents data) (s.receive data) := by
  have hbound : buffer.bound = s.buffer.bound := by
    have := s.buffer.bound_push data
    rwa [hpush] at this
  have hused : buffer.used = s.buffer.used + data.length := by
    rw [← buffer.length_contents, hcont, List.length_append, s.buffer.length_contents]
  rw [receive, hpush]
  dsimp only
  by_cases hdata : data = []
  · subst hdata
    rw [List.append_nil] at hcont ⊢
    rw [if_pos (by simpa using hused), Framer.verdict_nil]
    refine ⟨rfl, hbound, hcont, ?_⟩
    simpa only [Tracked, hcont] using hs
  · have hpos := List.length_pos_iff.mpr hdata
    have hwindow : (buffer.data.take buffer.used).drop s.buffer.used = data := by
      rw [buffer.take_data, hcont, ← s.buffer.length_contents, List.drop_left]
    rw [if_neg (by omega), hwindow]
    have hscan := scan_spec data _ _ _ hs
    rcases hr : scan data s.jsonDepth s.jsonDepthMax with ⟨depth, depthMax⟩ | ⟨depth, depthMax⟩
    · rw [hr] at hscan
      refine ⟨Framer.verdict_eq_reject_iff.mpr ⟨hdata, .inr hscan⟩, hbound, ?_⟩
      rw [hcont]
      exact List.prefix_append _ _
    · rw [hr] at hscan
      have htracks : braces.Tracks (s.buffer.contents ++ data) depth depthMax := hscan
      rw [verdict_of_tracks hdata (by simpa using hfits) htracks]
      have htracked : Tracked ⟨buffer, depth, depthMax⟩ := by
        simpa only [Tracked, hcont] using htracks
      by_cases h0 : depth = 0
      · by_cases hm : depthMax = 0
        · rw [if_neg (by omega)]
          simp only [h0, hm, if_true]
          exact ⟨rfl, hbound, hcont, by simpa only [h0, hm] using htracked⟩
        · rw [if_pos ⟨h0, by omega⟩]
          simp only [h0, hm, if_true, if_false]
          obtain ⟨htake, hlen, hterm⟩ := push_terminator buffer
          rw [hcont] at htake hterm
          refine ⟨rfl, (buffer.bound_push [0]).trans hbound, ?_, htake, hlen, ?_, rfl⟩
          · rw [← hcont, buffer.length_contents]
          · rw [← hbound]
            exact hterm
      · rw [if_neg fun h => h0 h.1]
        simp only [h0, if_false]
        exact ⟨rfl, hbound, hcont, htracked⟩

theorem receive_spec {s : Receiver} (hs : s.Tracked) (data : Bytes) :
    ReceiveSpec s.buffer.bound s.buffer.contents (s.buffer.contents ++ data)
      ((framer s.buffer.bound).verdict s.buffer.contents data) (s.receive data) := by
  have hspec := s.buffer.push_spec data
  rcases hp : s.buffer.push data with ⟨_ | _, buffer⟩
  · rw [hp] at hspec
    rcases hspec with ⟨-, h, -⟩ | ⟨hlt, -, hcont, hbound⟩
    · exact absurd h Bool.false_ne_true
    -- a chunk that does not fit is not empty
    have hdata : data ≠ [] := by
      rintro rfl
      exact absurd hlt (Nat.not_lt.mpr s.buffer.used_le_bound)
    have hlong : (framer s.buffer.bound).Rejects (s.buffer.contents ++ data) :=
      .inl (by simpa [framer] using hlt)
    rw [receive, hp]
    exact ⟨Framer.verdict_eq_reject_iff.mpr ⟨hdata, hlong⟩, hbound, hcont ▸ List.prefix_rfl⟩
  · rw [hp] at hspec
    rcases hspec with ⟨hle, -, hcont, -⟩ | ⟨-, h, -⟩
    · exact receive_spec_of_pushed hs hp hle hcont
    · exact absurd h.symm Bool.false_ne_true

/-- However `receive` ends, the room stays. -/
theorem bound_receive (s : Receiver) (data : Bytes) :
    (s.receive data).receiver.buffer.bound = s.buffer.bound := by
  have hPush := s.buffer.bound_push data
  rw [receive]
  rcases hp : s.buffer.push data with ⟨_ | _, buffer⟩ <;> rw [hp] at hPush
  · exact hPush
  · dsimp only at hPush ⊢
    split
    · exact hPush
    · split
      · exact hPush
      · split
        · split
          · exact hPush
          · exact (buffer.bound_push [0]).trans hPush
        · exact hPush

/-- After `consume` nothing is left, and the counters start again. -/
theorem consume_spec {s : Receiver} {length : Nat}
    (hlen : s.buffer.contents.length ≤ length + 1) (hdepth : s.jsonDepth = 0) :
    (s.consume length).buffer.contents = [] ∧ (s.consume length).jsonDepth = 0 ∧
      (s.consume length).jsonDepthMax = 0 ∧
      (s.consume length).buffer.bound = s.buffer.bound := by
  refine ⟨?_, hdepth, rfl, s.buffer.bound_pop (length + 1)⟩
  rw [consume, ContinuousBuffer.contents_pop]
  exact List.drop_eq_nil_of_le hlen

end Receiver

/-! ## One text in pieces -/

/-- Counting every brace of a text, the ones in strings too, no prefix closes
more than it opens, in the end all are closed, and no chunk but the last ends
where all are closed. -/
def CutAt (text : Bytes) (chunks : List Bytes) : Prop :=
  braces.NeverCloses text ∧ braces.depth text = 0 ∧
    ∀ j, 0 < j → j < chunks.length → braces.depth (chunks.take j).flatten ≠ 0

private theorem flatten_ne_nil {l : List Bytes} (hNe : ∀ c ∈ l, c ≠ []) (hPos : 0 < l.length) :
    l.flatten ≠ [] := by
  obtain ⟨c, l, rfl⟩ := List.exists_cons_of_length_pos hPos
  simp [hNe c (by simp)]

/-- A text that comes back to depth zero at its end and nowhere before may be cut anywhere. -/
theorem cutAt_of_enclosed {text : Bytes} (hEnclosed : braces.Enclosed text) {chunks : List Bytes}
    (hNe : ∀ c ∈ chunks, c ≠ []) (hCut : chunks.flatten = text) : CutAt text chunks := by
  refine ⟨hEnclosed.neverCloses, hEnclosed.depth, fun j hj hj' => ?_⟩
  have hPrefix : (chunks.take j).flatten <+: text := hCut ▸ (List.take_prefix j chunks).flatten
  refine (hEnclosed.pos _ hPrefix ?_ fun hAll => ?_).ne'
  · exact flatten_ne_nil (fun c hc => hNe c (List.mem_of_mem_take hc)) (by simp; omega)
  · refine flatten_ne_nil (fun c hc => hNe c (List.mem_of_mem_drop hc)) (l := chunks.drop j)
      (by simp; omega) ?_
    have hSplit := congrArg List.flatten (List.take_append_drop j chunks)
    rw [List.flatten_append, hAll, hCut] at hSplit
    exact List.append_cancel_left (hSplit.trans (List.append_nil _).symm)

end Kexplorer.Util

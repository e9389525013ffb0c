import Kexplorer.Server.SessionHandler
import Kexplorer.Util.RequestUtil

/-!
# What the server's framing accepts

The session handler finds the end of a request by counting braces, and looks at
the count when a chunk has been scanned.  Here that is compared with the grammar
of JSON and with the stream it is meant for.

* `framed_iff`: a sequence of requests without braces in their strings is told
  apart if and only if each of them ends where a chunk ends.  TCP does not
  promise that, so a client that sends two requests at once can have them
  merged.
* `accepts_iff`: one request is taken if and only if all its braces, those in
  strings included, are balanced, and no chunk ends where they already are.
-/

namespace Kexplorer.Server

open Kexplorer.Lib Kexplorer.Util Kexplorer.Json

/-! ## Braces of a JSON text -/

/-- What may stand unescaped in a string that holds no braces. -/
def plain (c : UInt8) : Prop := unescaped c ∧ c ≠ 0x7B ∧ c ≠ 0x7D

/-- An object comes back to depth zero at its end and nowhere before, anything
else is balanced. -/
def Bracketed : Nonterminal → Bytes → Prop
  | .object, s => braces.Enclosed s
  | _, s => braces.NeverCloses s ∧ braces.depth s = 0

theorem Bracketed.balanced {n : Nonterminal} {s : Bytes} (h : Bracketed n s) :
    braces.NeverCloses s ∧ braces.depth s = 0 := by
  cases n with
  | object => exact ⟨h.neverCloses, h.depth⟩
  | value => exact h
  | elements => exact h
  | members => exact h

theorem balanced_append {l r : Bytes} (hl : braces.NeverCloses l ∧ braces.depth l = 0)
    (hr : braces.NeverCloses r ∧ braces.depth r = 0) :
    braces.NeverCloses (l ++ r) ∧ braces.depth (l ++ r) = 0 :=
  ⟨hl.1.append hr.1, by rw [Brackets.depth_append, hl.2, hr.2]; rfl⟩

/-- A word without braces is balanced. -/
theorem balanced_of_notMem {s : Bytes} (ho : 0x7B ∉ s) (hc : 0x7D ∉ s) :
    braces.NeverCloses s ∧ braces.depth s = 0 := by
  have hAll : ∀ c ∈ s, braces.isOpen c = false ∧ braces.isClose c = false := by
    intro c hMem
    simp only [braces, beq_eq_false_iff_ne]
    exact ⟨fun h => ho (h ▸ hMem), fun h => hc (h ▸ hMem)⟩
  exact ⟨Brackets.neverCloses_of_forall hAll, Brackets.depth_eq_zero_of_forall hAll⟩

theorem balanced_ws {s : Bytes} (h : Ws s) : braces.NeverCloses s ∧ braces.depth s = 0 :=
  balanced_of_notMem (fun hc => absurd (h.mem hc) (by decide))
    (fun hc => absurd (h.mem hc) (by decide))

theorem balanced_stringLit {s : Bytes} (h : StringLit plain s) :
    braces.NeverCloses s ∧ braces.depth s = 0 := by
  refine balanced_of_notMem (fun hc => ?_) (fun hc => ?_)
  · rcases h.mem hc with h | h
    · exact h.2.1 rfl
    · exact absurd h (by decide)
  · rcases h.mem hc with h | h
    · exact h.2.2 rfl
    · exact absurd h (by decide)

theorem balanced_number {s : Bytes} (h : Number s) :
    braces.NeverCloses s ∧ braces.depth s = 0 :=
  balanced_of_notMem (fun hc => absurd (h.mem hc) (by decide))
    (fun hc => absurd (h.mem hc) (by decide))

/-- In texts without braces in their strings the braces are those of the
objects. -/
theorem bracketed_of_derives {n : Nonterminal} {s : Bytes} (h : Derives plain n s) :
    Bracketed n s := by
  have hBracket {c : UInt8} (ho : c ≠ 0x7B := by decide) (hc : c ≠ 0x7D := by decide) :
      braces.NeverCloses [c] ∧ braces.depth [c] = 0 :=
    balanced_of_notMem (by simp [ho.symm]) (by simp [hc.symm])
  induction h with
  | litNull => exact balanced_of_notMem (by decide) (by decide)
  | litTrue => exact balanced_of_notMem (by decide) (by decide)
  | litFalse => exact balanced_of_notMem (by decide) (by decide)
  | number h => exact balanced_number h
  | string h => exact balanced_stringLit h
  | emptyArray hw =>
      exact balanced_append (hBracket (c := 0x5B))
        (balanced_append (balanced_ws hw) (hBracket (c := 0x5D)))
  | array _ ih =>
      exact balanced_append (hBracket (c := 0x5B))
        (balanced_append ih.balanced (hBracket (c := 0x5D)))
  | ofObject _ ih => exact ih.balanced
  | emptyObject hw =>
      exact .of_wrap (by decide) (by decide) (balanced_ws hw).1 (balanced_ws hw).2
  | object _ ih => exact .of_wrap (by decide) (by decide) ih.balanced.1 ih.balanced.2
  | element h₁ _ h₂ ih =>
      exact balanced_append (balanced_append (balanced_ws h₁) ih.balanced) (balanced_ws h₂)
  | elements _ _ ih₁ ih₂ =>
      exact balanced_append ih₁.balanced
        (balanced_append (hBracket (c := 0x2C)) ih₂.balanced)
  | member h₁ hk h₂ h₃ _ h₄ ih =>
      exact balanced_append
        (balanced_append (balanced_append (balanced_ws h₁) (balanced_stringLit hk))
          (balanced_ws h₂))
        (balanced_append (hBracket (c := 0x3A))
          (balanced_append (balanced_append (balanced_ws h₃) ih.balanced) (balanced_ws h₄)))
  | members _ _ ih₁ ih₂ =>
      exact balanced_append ih₁.balanced
        (balanced_append (hBracket (c := 0x2C)) ih₂.balanced)

/-- A request without braces in its strings. -/
def IsPlainObject (s : Bytes) : Prop := Derives plain .object s

theorem enclosed_of_isPlainObject {s : Bytes} (h : IsPlainObject s) : braces.Enclosed s :=
  bracketed_of_derives h

namespace SessionHandler

variable {σ : Type*}

/-! ## A stream of requests -/

/-- The requests are dispatched each once and in order, and each no later than
the chunk that holds its last byte. -/
structure Framed (P : IRequestProcessor σ) (s : SessionHandler) (w : σ)
    (requests chunks : List Bytes) : Prop where
  once : dispatches P s w chunks = requests
  prompt : ∀ j k, k ≤ requests.length →
    (requests.take k).flatten.length ≤ (chunks.take j).flatten.length →
      requests.take k <+: dispatches P s w (chunks.take j)

theorem framed_iff (P : IRequestProcessor σ) (bufferSize bufferLimit : Nat) (id : UInt32) (w : σ)
    {requests chunks : List Bytes}
    (hRequests : ∀ t ∈ requests, IsPlainObject t ∧ t.length ≤ max bufferSize bufferLimit)
    (hCut : chunks.flatten = requests.flatten) :
    Framed P (new bufferSize bufferLimit id) w requests chunks ↔ Framer.Aligned requests chunks := by
  have hNew := holds_new bufferSize bufferLimit id
  have hEnclosed : ∀ t ∈ requests,
      (Receiver.framer (max bufferSize bufferLimit)).brackets.Enclosed t ∧
        t.length ≤ (Receiver.framer (max bufferSize bufferLimit)).bound :=
    fun t ht => ⟨enclosed_of_isPlainObject (hRequests t ht).1, (hRequests t ht).2⟩
  have hOnce := Framer.texts_eq_iff hEnclosed hCut
  constructor
  · intro h
    have hAll := h.once
    rw [dispatches_refine hNew] at hAll
    exact hOnce.mp hAll
  · intro hAligned
    refine ⟨?_, fun j k hk hRead => ?_⟩
    · rw [dispatches_refine hNew]
      exact hOnce.mpr hAligned
    · rw [dispatches_refine hNew]
      exact Framer.take_prefix_texts hEnclosed hCut hAligned hk hRead

/-- However a stream of requests is cut, the two runs agree on the requests if
and only if both cut it behind every request. -/
theorem chunking_independent_iff (P : IRequestProcessor σ) (bufferSize bufferLimit : Nat)
    (id : UInt32) (w : σ) {requests chunks₁ chunks₂ : List Bytes}
    (hRequests : ∀ t ∈ requests, IsPlainObject t ∧ t.length ≤ max bufferSize bufferLimit)
    (hCut₁ : chunks₁.flatten = requests.flatten) (hCut₂ : chunks₂.flatten = requests.flatten) :
    (Framed P (new bufferSize bufferLimit id) w requests chunks₁ ∧
        Framed P (new bufferSize bufferLimit id) w requests chunks₂) ↔
      Framer.Aligned requests chunks₁ ∧ Framer.Aligned requests chunks₂ :=
  and_congr (framed_iff P bufferSize bufferLimit id w hRequests hCut₁)
    (framed_iff P bufferSize bufferLimit id w hRequests hCut₂)

/-- A processor that answers nothing. -/
def silent : IRequestProcessor Unit where
  process _ _ _ w := (.ok [], w)
  returns _ _ _ _ := ⟨[], rfl⟩

theorem isPlainObject_empty : IsPlainObject (ascii "\x7b\x7d") := .emptyObject ws_nil

theorem chunking_independent_iff_two :
    (Framed silent (new 16 16 1) () [ascii "\x7b\x7d", ascii "\x7b\x7d"]
          [ascii "\x7b", ascii "\x7d", ascii "\x7b\x7d"] ∧
        Framed silent (new 16 16 1) () [ascii "\x7b\x7d", ascii "\x7b\x7d"]
          [ascii "\x7b\x7d", [], ascii "\x7b\x7d"]) ↔
      Framer.Aligned [ascii "\x7b\x7d", ascii "\x7b\x7d"] [ascii "\x7b", ascii "\x7d", ascii "\x7b\x7d"] ∧
        Framer.Aligned [ascii "\x7b\x7d", ascii "\x7b\x7d"] [ascii "\x7b\x7d", [], ascii "\x7b\x7d"] :=
  chunking_independent_iff silent 16 16 1 ()
    (by
      intro t ht
      obtain rfl : t = ascii "\x7b\x7d" := by simpa using ht
      exact ⟨isPlainObject_empty, by decide⟩)
    (by decide) (by decide)

/-- Two requests in one chunk are dispatched as one text. -/
theorem pipelined_requests_merge :
    (∀ t ∈ [ascii "\x7b\x7d", ascii "\x7b\x7d"], IsPlainObject t ∧ t.length ≤ 65536) ∧
      [ascii "\x7b\x7d\x7b\x7d"].flatten = [ascii "\x7b\x7d", ascii "\x7b\x7d"].flatten ∧
      dispatches silent (new 65536 65536 1) () [ascii "\x7b\x7d\x7b\x7d"] =
        [ascii "\x7b\x7d\x7b\x7d"] ∧
      ¬ Framed silent (new 65536 65536 1) () [ascii "\x7b\x7d", ascii "\x7b\x7d"]
        [ascii "\x7b\x7d\x7b\x7d"] := by
  have hMerged : dispatches silent (new 65536 65536 1) () [ascii "\x7b\x7d\x7b\x7d"] =
      [ascii "\x7b\x7d\x7b\x7d"] := by
    have hComplete : (Receiver.framer 65536).verdict [] (ascii "\x7b\x7d\x7b\x7d") =
        .complete (ascii "\x7b\x7d\x7b\x7d") := by
      rw [Framer.verdict_eq_complete_iff]
      refine ⟨by decide, ?_, (Framer.complete_iff_of_head (by decide)).mpr (by decide), rfl⟩
      rintro (hLong | hNeg)
      · exact absurd hLong (by decide)
      · exact hNeg (by decide : braces.NeverCloses (ascii "\x7b\x7d\x7b\x7d"))
    rw [dispatches_refine (holds_new 65536 65536 1), Nat.max_self, Framer.texts_cons, hComplete]
    rfl
  refine ⟨?_, by decide, hMerged, fun h => ?_⟩
  · intro t ht
    obtain rfl : t = ascii "\x7b\x7d" := by simpa using ht
    exact ⟨isPlainObject_empty, by decide⟩
  · have := h.once
    rw [hMerged] at this
    exact absurd this (by decide)

/-! ## One request -/

/-- Every chunk is answered with `Continue`, and the last one, and no other,
dispatches `request`. -/
def Accepts (P : IRequestProcessor σ) (s : SessionHandler) (w : σ) (request : Bytes)
    (chunks : List Bytes) : Prop :=
  (calls P s w chunks).map Outcome.seen =
    List.replicate (chunks.length - 1) (.Continue, none) ++ [(.Continue, some request)]

theorem accepts_iff_of_head (P : IRequestProcessor σ) {bound : Nat} {s : SessionHandler}
    (hs : Holds bound [] s) (w : σ) {t : Bytes} (hLen : (0x7B :: t).length ≤ bound)
    {chunks : List Bytes} (hNe : ∀ c ∈ chunks, c ≠ []) (hCut : chunks.flatten = 0x7B :: t) :
    Accepts P s w (0x7B :: t) chunks ↔ CutAt (0x7B :: t) chunks := by
  cases chunks with
  | nil => simp at hCut
  | cons chunk chunks =>
      have hAnswer : List.replicate ((chunk :: chunks).length - 1) (CallbackResult.Continue, none) ++
            [(CallbackResult.Continue, some (0x7B :: t))] =
          (List.replicate chunks.length Verdict.wait ++ [Verdict.complete (0x7B :: t)]).map
            Outcome.answer := by
        simp [Outcome.answer]
      rw [Accepts, hAnswer, calls_refine _ hs, Outcome.answer_injective.list_map.eq_iff]
      rw [Framer.verdicts_eq_iff (F := Receiver.framer bound) (by rfl) hLen chunk chunks [] hNe
        (by simpa using hCut)]
      simp only [CutAt, List.nil_append, List.length_cons, Nat.lt_succ_iff]
      rfl

/-- The server takes a JSON object, cut in some way, if and only if its braces
are balanced without regard to strings and no inner chunk ends where they are. -/
theorem accepts_iff (P : IRequestProcessor σ) (bufferSize bufferLimit : Nat) (id : UInt32) (w : σ)
    {t : Bytes} (ht : IsObject t) (hLen : t.length < bufferLimit) {chunks : List Bytes}
    (hNe : ∀ c ∈ chunks, c ≠ []) (hCut : chunks.flatten = t) :
    Accepts P (new bufferSize bufferLimit id) w t chunks ↔ CutAt t chunks := by
  obtain ⟨u, rfl⟩ := ht.head
  exact accepts_iff_of_head P (holds_new bufferSize bufferLimit id) w (by omega) hNe hCut

/-- An object with braces in a string, in three chunks. -/
theorem accepts_iff_braces :
    Accepts silent (new 16 16 1) () (ascii "\x7b\"a\":\"\x7b\x7d\"\x7d")
        [ascii "\x7b\"a\":", ascii "\"\x7b", ascii "\x7d\"\x7d"] ↔
      CutAt (ascii "\x7b\"a\":\"\x7b\x7d\"\x7d")
        [ascii "\x7b\"a\":", ascii "\"\x7b", ascii "\x7d\"\x7d"] := by
  have hObject := isObject_render [(ascii "a", .string (ascii "\x7b\x7d"))]
  have hText : Value.render (.object [(ascii "a", .string (ascii "\x7b\x7d"))]) =
      ascii "\x7b\"a\":\"\x7b\x7d\"\x7d" := by
    decide +kernel
  rw [hText] at hObject
  exact accepts_iff silent 16 16 1 () hObject (by decide) (by decide) (by decide)

/-- `simple` writes an object for every command, but not one the server takes:
the brace in the command closes one too many. -/
theorem simple_rejected :
    Request.simple 1 (literal "\x7d") =
        some (ascii "\x7b\"request.id\":1,\"request.request\":\"\x7d\"\x7d") ∧
      IsObject (ascii "\x7b\"request.id\":1,\"request.request\":\"\x7d\"\x7d") ∧
      ¬ Accepts silent (new 65536 65536 1) ()
        (ascii "\x7b\"request.id\":1,\"request.request\":\"\x7d\"\x7d")
        [ascii "\x7b\"request.id\":1,\"request.request\":\"\x7d\"\x7d"] := by
  have hSimple : Request.simple 1 (literal "\x7d") =
      some (ascii "\x7b\"request.id\":1,\"request.request\":\"\x7d\"\x7d") := by
    rw [Request.simple_eq]
    rfl
  refine ⟨hSimple, ?_, ?_⟩
  · have hObject := isObject_render
      [(Request.Id.idstr.bytes, .integer (.ofInt32 1)),
        (Request.Command.idstr.bytes, .string (literal "\x7d").bytes)]
    rw [Request.simple_eq] at hSimple
    rwa [Option.some.inj hSimple] at hObject
  · have hHolds := holds_new 65536 65536 1
    rw [show ascii "\x7b\"request.id\":1,\"request.request\":\"\x7d\"\x7d" =
      0x7B :: ascii "\"request.id\":1,\"request.request\":\"\x7d\"\x7d" from rfl]
    rw [accepts_iff_of_head silent hHolds () (by decide) (by decide) (by simp)]
    exact fun h => absurd h.1 (by decide)

/-- A request without braces in its strings is taken however it is cut. -/
theorem accepts_of_isPlainObject (P : IRequestProcessor σ) (bufferSize bufferLimit : Nat)
    (id : UInt32) (w : σ) {t : Bytes} (ht : IsPlainObject t)
    (hLen : t.length ≤ max bufferSize bufferLimit) {chunks : List Bytes}
    (hNe : ∀ c ∈ chunks, c ≠ []) (hCut : chunks.flatten = t) :
    Accepts P (new bufferSize bufferLimit id) w t chunks := by
  obtain ⟨u, rfl⟩ := ht.head
  rw [accepts_iff_of_head P (holds_new bufferSize bufferLimit id) w hLen hNe hCut]
  exact cutAt_of_enclosed (enclosed_of_isPlainObject ht) hNe hCut

/-! ## The terminator -/

/-- If the call hands a request to the processor, the byte behind it is a NUL in the buffer. -/
def Terminates (o : Outcome σ) : Prop :=
  ∀ request length, o.dispatched = some (request, length) → request[length]? = some 0

/-- What the processor can read is a part of the vector. -/
theorem length_request_le {s : SessionHandler} {data : Bytes} {w : σ} {request : Bytes}
    {length : Nat} (h : (s.process P data w).dispatched = some (request, length)) :
    request.length ≤ s.receiver.buffer.bound := by
  have hBound := s.receiver.bound_receive data
  rw [process] at h
  rcases hr : s.receiver.receive data with ⟨what, r⟩ | r | ⟨r, n⟩ <;> rw [hr] at h hBound
  · cases h
  · cases h
  · have hData : r.buffer.data.length ≤ r.buffer.bound := by
      unfold ContinuousBuffer.data
      split
      · exact Nat.zero_le _
      · rw [List.length_drop]
        exact (Nat.sub_le _ _).trans (le_max_left _ _)
    rw [← hBound]
    dsimp only at h
    split at h <;> cases h <;> exact hData

/-- A request is followed by its NUL unless it fills the buffer. -/
theorem terminates_iff_of_holds {bound : Nat} {pending : Bytes} {s : SessionHandler}
    (hs : Holds bound pending s) (data : Bytes) (w : σ) :
    Terminates (s.process P data w) ↔
      ∀ text, ((Receiver.framer bound).verdict pending data).text? = some text →
        text.length ≠ bound := by
  have hSpec := process_spec (P := P) hs data w
  rw [← Outcome.text_eq hSpec.seen]
  cases hDispatched : (s.process P data w).dispatched with
  | none =>
      refine iff_of_true (fun request length h => ?_) fun text h => ?_
      · cases hDispatched.symm.trans h
      · rw [Outcome.text?, hDispatched] at h
        cases h
  | some dispatched =>
      obtain ⟨request, length⟩ := dispatched
      obtain ⟨rfl, hText, hTerm⟩ := hSpec.request request length hDispatched
      have hLe := length_request_le hDispatched
      rw [hs.room] at hLe
      have hFits : (pending ++ data).length ≤ bound := by
        have hTake := congrArg List.length hText
        rw [List.length_take] at hTake
        omega
      have hTerminates : Terminates (s.process P data w) ↔
          request[(pending ++ data).length]? = some 0 := by
        refine ⟨fun h => h _ _ hDispatched, fun h request' length' h' => ?_⟩
        cases hDispatched.symm.trans h'
        exact h
      rw [hTerminates, Outcome.text?, hDispatched]
      simp only [Option.map_some, hText, Option.some.injEq, forall_eq']
      constructor
      · intro hNul hFull
        rw [List.getElem?_eq_none (by omega)] at hNul
        cases hNul
      · intro hFull
        obtain ⟨rest, hRest⟩ := hTerm (by omega)
        rw [hRest]
        simp

theorem terminates_iff_of_run {bound : Nat} (chunks : List Bytes) :
    ∀ {pending : Bytes} {s : SessionHandler}, Holds bound pending s → ∀ w : σ,
      ((∀ o ∈ calls P s w chunks, Terminates o) ↔
        ∀ text ∈ (Receiver.framer bound).texts pending chunks, text.length ≠ bound) := by
  induction chunks with
  | nil => exact fun _ _ => iff_of_true (List.forall_mem_nil _) (List.forall_mem_nil _)
  | cons chunk chunks ih =>
      intro pending s hs w
      rw [calls, List.forall_mem_cons, terminates_iff_of_holds hs chunk w,
        ih (process_spec hs chunk w).holds, Framer.texts_cons]
      simp only [List.forall_mem_append, Option.mem_toList]

/-- In a run every request is followed by its NUL in the buffer exactly if none is as long as the
limit. -/
theorem terminated_iff (P : IRequestProcessor σ) {bufferSize bufferLimit : Nat}
    (hSize : bufferSize ≤ bufferLimit) (id : UInt32) (w : σ) (chunks : List Bytes) :
    (∀ o ∈ calls P (new bufferSize bufferLimit id) w chunks, Terminates o) ↔
      ∀ text ∈ (Receiver.framer bufferLimit).texts [] chunks, text.length ≠ bufferLimit := by
  have hNew := holds_new bufferSize bufferLimit id
  rw [max_eq_right hSize] at hNew
  exact terminates_iff_of_run chunks hNew w

theorem terminated_iff_small :
    (∀ o ∈ calls silent (new 2 2 1) () [ascii "\x7b", ascii "\x7d"], Terminates o) ↔
      ∀ text ∈ (Receiver.framer 2).texts [] [ascii "\x7b", ascii "\x7d"], text.length ≠ 2 :=
  terminated_iff silent (by decide) 1 () [ascii "\x7b", ascii "\x7d"]

/-- An empty object with blanks between its braces. -/
def blankObject (n : Nat) : Bytes := 0x7B :: (List.replicate n 0x20 ++ [0x7D])

@[simp] theorem length_blankObject (n : Nat) : (blankObject n).length = n + 2 := by
  simp [blankObject]

theorem isPlainObject_blankObject (n : Nat) : IsPlainObject (blankObject n) :=
  .emptyObject fun c hc => by simp [List.eq_of_mem_replicate hc]

/-- A request that is taken in one chunk is the only one of the run. -/
theorem dispatches_of_accepts {s : SessionHandler} {w : σ} {request chunk : Bytes}
    (h : Accepts P s w request [chunk]) : dispatches P s w [chunk] = [request] := by
  have hSeen := congrArg (List.filterMap Prod.snd) h
  rwa [List.filterMap_map] at hSeen

/-- A request that fills the buffer is dispatched without a NUL behind it. -/
theorem full_request_unterminated :
    dispatches silent (new 65536 65536 1) () [blankObject 65534] = [blankObject 65534] ∧
      ¬ ∀ o ∈ calls silent (new 65536 65536 1) () [blankObject 65534], Terminates o := by
  have hNew := holds_new 65536 65536 1
  have hAccepts : Accepts silent (new 65536 65536 1) () (blankObject 65534) [blankObject 65534] := by
    refine accepts_of_isPlainObject silent 65536 65536 1 () (isPlainObject_blankObject 65534) ?_ ?_
      (List.append_nil _)
    · rw [length_blankObject]
      omega
    · rw [List.forall_mem_singleton]
      exact List.cons_ne_nil _ _
  have hDispatches := dispatches_of_accepts hAccepts
  refine ⟨hDispatches, ?_⟩
  rw [dispatches_refine hNew] at hDispatches
  rw [terminates_iff_of_run _ hNew, hDispatches]
  simp

end SessionHandler

end Kexplorer.Server

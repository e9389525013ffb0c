import Kexplorer.Lib.Bracket
import Mathlib.Data.List.Flatten
import Mathlib.Data.List.TakeDrop

/-!
# Framing a stream by counting brackets

What a receiver is for that collects chunks of a stream until the brackets
collected so far are closed.  The framer below is given by its purpose only:
it sees the letters kept from earlier chunks and the next chunk, and answers
with a `Verdict`.  It waits for more, or takes everything it holds as one
complete text, or rejects it, because a prefix closes too much or because the
letters no longer fit.

`verdicts_eq_iff` says when one text, cut into chunks, is taken as that one
text; `texts_verdicts_iff` says when a sequence of enclosed texts is told
apart.  Both answers are about where the cuts lie, because the framer looks at
its counters at the end of a chunk only.
-/

namespace Kexplorer.Lib

variable {α : Type*}

/-- What a framer says about a chunk. -/
inductive Verdict (α : Type*)
  | wait
  | complete (text : List α)
  | reject

namespace Verdict

/-- What is kept of the letters held when the verdict was given. -/
def keep : Verdict α → List α → List α
  | .wait, held => held
  | .complete _, _ => []
  | .reject, _ => []

/-- The text taken, if one was. -/
def text? : Verdict α → Option (List α)
  | .complete text => some text
  | _ => none

end Verdict

/-- A bracket alphabet and the number of letters that can be held. -/
structure Framer (α : Type*) where
  brackets : Brackets α
  bound : Nat

namespace Framer

variable (F : Framer α)

/-- The letters held cannot become a text any more, or are too many. -/
def Rejects (held : List α) : Prop :=
  F.bound < held.length ∨ ¬ F.brackets.NeverCloses held

/-- The brackets of the letters held are closed, and there were some. -/
def Complete (held : List α) : Prop :=
  F.brackets.depth held = 0 ∧ ∃ p, p <+: held ∧ 0 < F.brackets.depth p

open Classical in
/-- The verdict on `chunk` when the letters `pending` are held. -/
noncomputable def verdict (pending chunk : List α) : Verdict α :=
  if chunk = [] then .wait
  else if F.Rejects (pending ++ chunk) then .reject
  else if F.Complete (pending ++ chunk) then .complete (pending ++ chunk)
  else .wait

/-- The verdicts on a sequence of chunks. -/
noncomputable def verdicts : List α → List (List α) → List (Verdict α)
  | _, [] => []
  | pending, chunk :: chunks =>
      F.verdict pending chunk ::
        verdicts ((F.verdict pending chunk).keep (pending ++ chunk)) chunks

/-- The texts taken out of a sequence of chunks. -/
noncomputable def texts (pending : List α) (chunks : List (List α)) : List (List α) :=
  (F.verdicts pending chunks).filterMap Verdict.text?

/-! ## One chunk -/

@[simp] theorem verdict_nil (pending : List α) : F.verdict pending [] = .wait := by
  simp [verdict]

variable {F}

theorem verdict_eq_reject_iff {pending chunk : List α} :
    F.verdict pending chunk = .reject ↔ chunk ≠ [] ∧ F.Rejects (pending ++ chunk) := by
  unfold verdict
  split_ifs <;> simp_all

theorem verdict_eq_complete_iff {pending chunk text : List α} :
    F.verdict pending chunk = .complete text ↔
      chunk ≠ [] ∧ ¬ F.Rejects (pending ++ chunk) ∧ F.Complete (pending ++ chunk) ∧
        text = pending ++ chunk := by
  unfold verdict
  split_ifs <;> simp_all [eq_comm]

theorem verdict_eq_wait_iff {pending chunk : List α} :
    F.verdict pending chunk = .wait ↔
      chunk ≠ [] → ¬ F.Rejects (pending ++ chunk) ∧ ¬ F.Complete (pending ++ chunk) := by
  unfold verdict
  split_ifs <;> simp_all

/-- A word that starts with an opener has had brackets. -/
theorem complete_iff_of_head {a : α} {t : List α} (ha : F.brackets.isOpen a = true) :
    F.Complete (a :: t) ↔ F.brackets.depth (a :: t) = 0 := by
  refine ⟨fun h => h.1, fun h => ⟨h, [a], ⟨t, rfl⟩, ?_⟩⟩
  rw [Brackets.depth_open ha]
  omega

/-! ## One text -/

/-- One text, `pending` of it already held and the rest cut into non-empty
chunks, is taken whole on the last chunk and kept until then if and only if it
is bracketed and no inner cut lies at depth zero. -/
theorem verdicts_eq_iff {a : α} {t : List α} (ha : F.brackets.isOpen a = true)
    (hlen : (a :: t).length ≤ F.bound) :
    ∀ (chunk : List α) (chunks : List (List α)) (pending : List α),
      (∀ c ∈ chunk :: chunks, c ≠ []) → pending ++ (chunk :: chunks).flatten = a :: t →
      (F.verdicts pending (chunk :: chunks) =
          List.replicate chunks.length .wait ++ [.complete (a :: t)] ↔
        F.brackets.NeverCloses (a :: t) ∧ F.brackets.depth (a :: t) = 0 ∧
          ∀ j, 0 < j → j ≤ chunks.length →
            F.brackets.depth (pending ++ ((chunk :: chunks).take j).flatten) ≠ 0) := by
  intro chunk chunks
  induction chunks generalizing chunk with
  | nil =>
      intro pending hne htext
      have hc : chunk ≠ [] := hne chunk (by simp)
      have hall : pending ++ chunk = a :: t := by simpa using htext
      have hlen' : ¬ F.bound < (a :: t).length := by omega
      simp only [verdicts, List.length_nil, List.replicate_zero, List.nil_append,
        List.cons.injEq, and_true, verdict_eq_complete_iff, hall, Rejects, hlen', false_or,
        not_not, complete_iff_of_head ha]
      constructor
      · rintro ⟨-, hn, h0⟩
        exact ⟨hn, h0, fun j hj hj' => by omega⟩
      · exact fun ⟨hn, h0, _⟩ => ⟨hc, hn, h0⟩
  | cons chunk' chunks ih =>
      intro pending hne htext
      have hc : chunk ≠ [] := hne chunk (by simp)
      have hrest : ∀ c ∈ chunk' :: chunks, c ≠ [] := fun c hc => hne c (by simp [hc])
      have htext' : (pending ++ chunk) ++ (chunk' :: chunks).flatten = a :: t := by
        rw [← htext]
        simp
      have hpre : pending ++ chunk <+: a :: t := ⟨_, htext'⟩
      -- what is held after this chunk starts like the text, and is shorter
      obtain ⟨s, hs⟩ : ∃ s, pending ++ chunk = a :: s := by
        cases hp : pending ++ chunk with
        | nil => exact absurd (List.append_eq_nil_iff.mp hp).2 hc
        | cons b s =>
            rw [hp] at hpre
            obtain ⟨rfl, -⟩ := List.cons_prefix_cons.mp hpre
            exact ⟨s, rfl⟩
      have hshort : ¬ F.bound < (pending ++ chunk).length := by
        have := hpre.length_le
        omega
      have hwait : F.verdict pending chunk = .wait ↔
          F.brackets.NeverCloses (pending ++ chunk) ∧
            F.brackets.depth (pending ++ chunk) ≠ 0 := by
        rw [verdict_eq_wait_iff, hs, complete_iff_of_head ha, ← hs]
        simp only [Rejects, hshort, false_or, not_not, ne_eq, hc, not_false_eq_true,
          true_implies]
      have hstep := ih chunk' (pending ++ chunk) hrest htext'
      constructor
      · intro h
        simp only [verdicts, List.length_cons, List.replicate_succ, List.cons_append,
          List.cons.injEq] at h
        obtain ⟨hv, htail⟩ := h
        rw [hv] at htail
        obtain ⟨hn, h0, hcuts⟩ := hstep.mp htail
        refine ⟨hn, h0, fun j hj hj' => ?_⟩
        cases j with
        | zero => omega
        | succ j =>
            rw [List.take_succ_cons, List.flatten_cons, ← List.append_assoc]
            cases j with
            | zero => simpa using (hwait.mp hv).2
            | succ j => exact hcuts (j + 1) (by omega) (by simpa using hj')
      · rintro ⟨hn, h0, hcuts⟩
        have hv : F.verdict pending chunk = .wait := by
          refine hwait.mpr ⟨hn.of_prefix hpre, ?_⟩
          simpa using hcuts 1 (by omega) (by simp)
        have htail := hstep.mpr ⟨hn, h0, fun j hj hj' => by
          have := hcuts (j + 1) (by omega) (by simpa using hj')
          rwa [List.take_succ_cons, List.flatten_cons, ← List.append_assoc] at this⟩
        simp only [verdicts, hv, List.length_cons, List.replicate_succ, List.cons_append]
        exact congrArg (Verdict.wait :: ·) htail

/-! ## A sequence of texts -/

/-- Every text ends where a chunk ends. -/
def Aligned (texts chunks : List (List α)) : Prop :=
  ∀ k, k ≤ texts.length → ∃ j, j ≤ chunks.length ∧
    (chunks.take j).flatten.length = (texts.take k).flatten.length

/-- `Aligned` when the first letters of the first text are already held. -/
private def AlignedFrom (held : Nat) (texts chunks : List (List α)) : Prop :=
  ∀ k, 0 < k → k ≤ texts.length → ∃ j, j ≤ chunks.length ∧
    held + (chunks.take j).flatten.length = (texts.take k).flatten.length

theorem texts_nil (pending : List α) : F.texts pending [] = [] := rfl

theorem texts_cons (pending chunk : List α) (chunks : List (List α)) :
    F.texts pending (chunk :: chunks) =
      (F.verdict pending chunk).text?.toList ++
        F.texts ((F.verdict pending chunk).keep (pending ++ chunk)) chunks := by
  simp only [texts, verdicts, List.filterMap_cons]
  cases F.verdict pending chunk <;> simp [Verdict.text?]

/-- Reading more chunks only adds texts. -/
theorem texts_append_prefix (chunks more : List (List α)) :
    ∀ pending : List α, F.texts pending chunks <+: F.texts pending (chunks ++ more) := by
  induction chunks with
  | nil => exact fun _ => List.nil_prefix
  | cons chunk chunks ih =>
      intro pending
      rw [List.cons_append, texts_cons, texts_cons, List.prefix_append_right_inj]
      exact ih _

/-- An empty chunk changes nothing. -/
theorem texts_cons_nil (pending : List α) (chunks : List (List α)) :
    F.texts pending ([] :: chunks) = F.texts pending chunks := by
  simp [texts_cons, Verdict.text?, Verdict.keep]

/-- A chunk that leaves the current text incomplete is kept. -/
theorem verdict_of_proper {text pending chunk : List α} (ht : F.brackets.Enclosed text)
    (hlen : text.length ≤ F.bound) (hpre : pending ++ chunk <+: text)
    (hne : pending ++ chunk ≠ text) : F.verdict pending chunk = .wait := by
  rw [verdict_eq_wait_iff]
  intro hc
  have hnil : pending ++ chunk ≠ [] := by simp [hc]
  refine ⟨?_, fun hcomplete => ?_⟩
  · rintro (hlong | hneg)
    · have := hpre.length_le
      omega
    · exact hneg (ht.neverCloses.of_prefix hpre)
  · have := ht.pos _ hpre hnil hne
    have := hcomplete.1
    omega

/-- A chunk that ends with the current text completes it. -/
theorem verdict_of_end {text pending chunk : List α} (ht : F.brackets.Enclosed text)
    (hlen : text.length ≤ F.bound) (hall : pending ++ chunk = text) (hc : chunk ≠ []) :
    F.verdict pending chunk = .complete text := by
  obtain ⟨a, t, ha, hat⟩ := ht.head
  rw [verdict_eq_complete_iff, hall]
  refine ⟨hc, ?_, ?_, rfl⟩
  · rintro (hlong | hneg)
    · omega
    · exact hneg ht.neverCloses
  · rw [hat, complete_iff_of_head ha, ← hat]
    exact ht.depth

/-- Any non-empty run of texts is longer than the part of the first that is
already held. -/
private theorem held_lt {held : Nat} {texts : List (List α)}
    (hhead : ∀ t, texts.head? = some t → held < t.length) {k : Nat} (hk : 0 < k)
    (hk' : k ≤ texts.length) : held < (texts.take k).flatten.length := by
  cases texts with
  | nil => simp at hk'; omega
  | cons t ts =>
      obtain ⟨k, rfl⟩ : ∃ n, k = n + 1 := ⟨k - 1, by omega⟩
      have := hhead t rfl
      rw [List.take_succ_cons, List.flatten_cons, List.length_append]
      omega

private theorem AlignedFrom.tail {held : Nat} {chunk : List α} {texts chunks : List (List α)}
    (hal : AlignedFrom held texts (chunk :: chunks))
    (hhead : ∀ t, texts.head? = some t → held < t.length) :
    AlignedFrom (held + chunk.length) texts chunks := by
  intro k hk hk'
  obtain ⟨j, hj, hlen⟩ := hal k hk hk'
  have := held_lt hhead hk hk'
  cases j with
  | zero =>
      rw [List.take_zero, List.flatten_nil, List.length_nil] at hlen
      omega
  | succ j =>
      rw [List.take_succ_cons, List.flatten_cons, List.length_append] at hlen
      exact ⟨j, by simpa using hj, by omega⟩

private theorem AlignedFrom.next {t : List α} {texts chunks : List (List α)}
    (hal : AlignedFrom t.length (t :: texts) chunks) : AlignedFrom 0 texts chunks := by
  intro k hk hk'
  obtain ⟨j, hj, hlen⟩ := hal (k + 1) (by omega) (by simpa using hk')
  rw [List.take_succ_cons, List.flatten_cons, List.length_append] at hlen
  exact ⟨j, hj, by omega⟩

/-- With every text ending at a chunk end, the framer takes exactly the texts.
The induction is on the chunks; `pending` is the part of the first text that
has been read. -/
private theorem texts_of_alignedFrom (chunks : List (List α)) :
    ∀ (pending : List α) (texts : List (List α)),
      (∀ t ∈ texts, F.brackets.Enclosed t ∧ t.length ≤ F.bound) →
      pending ++ chunks.flatten = texts.flatten →
      (∀ t, texts.head? = some t → pending.length < t.length) →
      AlignedFrom pending.length texts chunks →
      F.texts pending chunks = texts := by
  induction chunks with
  | nil =>
      intro pending texts _ hflat hhead _
      cases texts with
      | nil => rfl
      | cons t ts =>
          have h1 := held_lt hhead (k := 1) (by omega) (by simp)
          have h2 := congrArg List.length hflat
          simp only [List.flatten_nil, List.append_nil, List.flatten_cons, List.length_append,
            List.take_succ_cons, List.take_zero] at h1 h2
          omega
  | cons chunk chunks ih =>
      intro pending texts htexts hflat hhead hal
      by_cases hc : chunk = []
      · subst hc
        rw [texts_cons_nil]
        exact ih pending texts htexts (by simpa using hflat) hhead (hal.tail hhead)
      cases texts with
      | nil =>
          rw [List.flatten_cons, List.flatten_nil] at hflat
          simp [hc] at hflat
      | cons t ts =>
          obtain ⟨ht, hbound⟩ := htexts t (by simp)
          rw [List.flatten_cons, List.flatten_cons, ← List.append_assoc] at hflat
          have hlong := hal.tail hhead
          -- the first text ends at this chunk or later
          have hle : (pending ++ chunk).length ≤ t.length := by
            obtain ⟨j, -, hlen⟩ := hlong 1 (by omega) (by simp)
            simp only [List.take_succ_cons, List.take_zero, List.flatten_cons,
              List.flatten_nil, List.append_nil] at hlen
            rw [List.length_append]
            omega
          have hpre : pending ++ chunk <+: t :=
            List.prefix_of_prefix_length_le ⟨_, hflat⟩ (List.prefix_append t _) hle
          rw [texts_cons]
          by_cases hall : pending ++ chunk = t
          · have hflat' : chunks.flatten = ts.flatten := by
              rw [hall] at hflat
              exact List.append_cancel_left hflat
            have hlong' : AlignedFrom t.length (t :: ts) chunks := by
              rw [← hall, List.length_append, hall]
              exact hlong
            rw [verdict_of_end ht hbound hall hc]
            refine congrArg (t :: ·) (ih [] ts (fun u hu => htexts u (by simp [hu])) hflat'
              (fun u hu => ?_) hlong'.next)
            obtain ⟨hu, -⟩ := htexts u (by simp [List.mem_of_head? hu])
            exact List.length_pos_iff.mpr hu.ne_nil
          · rw [verdict_of_proper ht hbound hpre hall]
            refine ih (pending ++ chunk) (t :: ts) htexts hflat (fun u hu => ?_) ?_
            · obtain rfl : t = u := by simpa using hu
              exact lt_of_le_of_ne hle fun he => hall (hpre.eq_of_length he)
            · rw [List.length_append]
              exact hlong

/-- The texts taken are never longer than what was read; if they are not
shorter either, each of them ends where a chunk ends. -/
private theorem alignedFrom_of_texts (chunks : List (List α)) :
    ∀ pending : List α,
      (F.texts pending chunks).flatten.length ≤ pending.length + chunks.flatten.length ∧
      ((F.texts pending chunks).flatten.length = pending.length + chunks.flatten.length →
        AlignedFrom pending.length (F.texts pending chunks) chunks) := by
  induction chunks with
  | nil =>
      intro pending
      refine ⟨by simp [texts_nil], fun _ k hk hk' => ?_⟩
      simp only [texts_nil, List.length_nil] at hk'
      omega
  | cons chunk chunks ih =>
      intro pending
      rw [texts_cons]
      rcases hv : F.verdict pending chunk with _ | text | _
      case wait =>
        obtain ⟨hle, hal⟩ := ih (pending ++ chunk)
        simp only [Verdict.text?, Verdict.keep, Option.toList_none, List.nil_append,
          List.flatten_cons, List.length_append] at hle hal ⊢
        refine ⟨by omega, fun heq k hk hk' => ?_⟩
        obtain ⟨j, hj, hlen⟩ := hal (by omega) k hk hk'
        refine ⟨j + 1, by simpa using hj, ?_⟩
        rw [List.take_succ_cons, List.flatten_cons, List.length_append]
        omega
      case complete =>
        obtain ⟨hle, hal⟩ := ih []
        obtain ⟨-, -, -, rfl⟩ := verdict_eq_complete_iff.mp hv
        simp only [Verdict.text?, Verdict.keep, Option.toList_some, List.singleton_append,
          List.flatten_cons, List.length_append, List.length_nil, Nat.zero_add] at hle hal ⊢
        refine ⟨by omega, fun heq k hk hk' => ?_⟩
        cases k with
        | zero => omega
        | succ k =>
            by_cases hk0 : k = 0
            · exact ⟨1, by simp, by simp [hk0]⟩
            · obtain ⟨j, hj, hlen⟩ := hal (by omega) k (by omega) (by simpa using hk')
              refine ⟨j + 1, by simpa using hj, ?_⟩
              simp only [List.take_succ_cons, List.flatten_cons, List.length_append]
              omega
      case reject =>
        obtain ⟨hle, -⟩ := ih []
        obtain ⟨hc, -⟩ := verdict_eq_reject_iff.mp hv
        have hpos := List.length_pos_iff.mpr hc
        simp only [Verdict.text?, Verdict.keep, Option.toList_none, List.nil_append,
          List.flatten_cons, List.length_append, List.length_nil] at hle ⊢
        exact ⟨by omega, fun heq => by omega⟩

/-- A sequence of enclosed texts, cut in any way, is told apart if and only if
every text ends where a chunk ends. -/
theorem texts_eq_iff {texts chunks : List (List α)}
    (htexts : ∀ t ∈ texts, F.brackets.Enclosed t ∧ t.length ≤ F.bound)
    (hflat : chunks.flatten = texts.flatten) :
    F.texts [] chunks = texts ↔ Aligned texts chunks := by
  constructor
  · intro h k hk
    cases k with
    | zero => exact ⟨0, by omega, by simp⟩
    | succ k =>
        have hal := (alignedFrom_of_texts (F := F) chunks []).2 (by simp [h, hflat])
        rw [h] at hal
        simpa using hal (k + 1) (by omega) hk
  · intro hal
    refine texts_of_alignedFrom chunks [] texts htexts (by simpa using hflat) ?_ ?_
    · intro t ht
      obtain ⟨ht, -⟩ := htexts t (List.mem_of_head? ht)
      exact List.length_pos_iff.mpr ht.ne_nil
    · intro k _ hk'
      simpa using hal k hk'

private theorem take_flatten_length_le (l : List (List α)) {i j : Nat} (h : i ≤ j) :
    (l.take i).flatten.length ≤ (l.take j).flatten.length :=
  (List.take_prefix_take_left h).flatten.length_le

/-- An alignment can be read off at an earlier cut, if it falls no later. -/
private theorem exists_cut_le {texts chunks : List (List α)} (hal : Aligned texts chunks)
    {k j : Nat} (hk : k ≤ texts.length)
    (hread : (texts.take k).flatten.length ≤ (chunks.take j).flatten.length) :
    ∃ i, i ≤ j ∧ i ≤ chunks.length ∧
      (chunks.take i).flatten.length = (texts.take k).flatten.length := by
  obtain ⟨i, hi, hlen⟩ := hal k hk
  rcases Nat.le_total i j with hij | hji
  · exact ⟨i, hij, hi, hlen⟩
  · have := take_flatten_length_le chunks hji
    exact ⟨j, le_rfl, hji.trans hi, by omega⟩

/-- With every text ending at a chunk end, each text has been taken as soon as
its last letter has been read. -/
theorem take_prefix_texts {texts chunks : List (List α)}
    (htexts : ∀ t ∈ texts, F.brackets.Enclosed t ∧ t.length ≤ F.bound)
    (hflat : chunks.flatten = texts.flatten) (hal : Aligned texts chunks) {j k : Nat}
    (hk : k ≤ texts.length)
    (hread : (texts.take k).flatten.length ≤ (chunks.take j).flatten.length) :
    texts.take k <+: F.texts [] (chunks.take j) := by
  obtain ⟨i, hij, hi, hlen⟩ := exists_cut_le hal hk hread
  have hcut : (chunks.take i).flatten = (texts.take k).flatten := by
    have h1 : (chunks.take i).flatten <+: texts.flatten :=
      hflat ▸ (List.take_prefix i chunks).flatten
    exact (List.prefix_of_prefix_length_le h1 (List.take_prefix k texts).flatten
      hlen.le).eq_of_length hlen
  have hal' : Aligned (texts.take k) (chunks.take i) := by
    intro k' hk'
    have hk'k : k' ≤ k := hk'.trans (List.length_take_le k texts)
    have hread' : (texts.take k').flatten.length ≤ (chunks.take i).flatten.length := by
      rw [hlen]
      exact take_flatten_length_le texts hk'k
    obtain ⟨i', hi', -, hlen'⟩ := exists_cut_le hal (hk'k.trans hk) hread'
    refine ⟨i', by rw [List.length_take]; omega, ?_⟩
    rw [List.take_take, Nat.min_eq_left hi', List.take_take, Nat.min_eq_left hk'k, hlen']
  rw [← (texts_eq_iff (fun t ht => htexts t (List.mem_of_mem_take ht)) hcut).mpr hal']
  obtain ⟨more, hmore⟩ := List.take_prefix_take_left (l := chunks) hij
  rw [← hmore]
  exact texts_append_prefix _ more []

end Framer

end Kexplorer.Lib

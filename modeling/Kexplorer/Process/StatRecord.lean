import Kexplorer.Process.ReadStat

/-!
# Incomplete stat records

`readStat` rejects a line exactly if a parenthesis in it is not closed.  A line
that just ends early is not rejected, and the fields that are missing keep what
the constructor of `Stat` has put there.
-/

namespace Kexplorer.Process

open Kexplorer.Json Kexplorer.Util

/-- A field of a record other than the name. -/
structure Field where
  text : Bytes
  ne_nil : text ≠ []
  plain : ∀ c ∈ text, Plain c ∧ c ≠ 0x29

/-- The fields of a record from the pid to the exit code, and what stands behind them. -/
structure Record where
  pid : Field
  name : Bytes
  /-- From the state on. -/
  fields : List Field
  rest : Bytes
  zero_notMem_name : 0 ∉ name
  length_fields : fields.length = 50
  separated_rest : Separated rest
  zero_notMem_rest : 0 ∉ rest
  close_notMem_rest : 0x29 ∉ rest

/-- A field of one letter or digit. -/
def Field.single (c : UInt8) (h : Plain c ∧ c ≠ 0x29) : Field where
  text := [c]
  ne_nil := List.cons_ne_nil c []
  plain := List.forall_mem_singleton.mpr h

/-- A running process whose name has a parenthesis in it, and zeros behind that. -/
def zeros : Record where
  pid := .single 0x37 (by unfold Plain; decide)
  name := ascii "a) b"
  fields := .single 0x52 (by unfold Plain; decide) ::
    List.replicate 49 (.single 0x30 (by unfold Plain; decide))
  rest := []
  zero_notMem_name := by decide
  length_fields := rfl
  separated_rest := by rintro c ⟨⟩
  zero_notMem_rest := List.not_mem_nil
  close_notMem_rest := List.not_mem_nil

/-- Fields with a space in front of each. -/
def spacedFields (fields : List Field) : Bytes := fields.flatMap fun f => 0x20 :: f.text

def Record.line (r : Record) : Bytes :=
  r.pid.text ++ ascii " (" ++ r.name ++ ascii ")" ++ spacedFields r.fields ++ r.rest

/-- The line has all fields from the pid to the exit code. -/
def Complete (line : Bytes) : Prop := ∃ r : Record, r.line = line

/-- At this position is a parenthesis that is not closed before the line, or the C string, ends. -/
def UnclosedAt (s : Bytes) (i : Nat) : Prop := ∃ after, s.drop i = 0x28 :: after ∧ 0x29 ∉ cstr after

def Unclosed (s : Bytes) : Prop := ∃ i, UnclosedAt s i

namespace Host

variable {Double : Type} (host : Host Double)

/-- The fields from the state on, stored one after the other. -/
def storeFields (rest : Bytes) : Nat → List Field → Stat → Stat
  | _, [], result => result
  | index, f :: fields, result =>
      storeFields rest (index + 1) fields
        (host.store (spacedFields (f :: fields) ++ rest) index 0 (f.text.length + 1) result)

/-- All fields of a record, stored. -/
def storeRecord (r : Record) (result : Stat) : Stat :=
  host.storeFields r.rest 2 r.fields
    { result with pid := (strtol r.line).toInt32, comm := r.name }

/-- A valid result has every field from a complete line, and any other line gives an error. -/
def ValidIfComplete (pid : Int32) (uid : UInt32) (line : Bytes) : Prop :=
  ((host.readStat pid).valid = true →
      ∃ r : Record, r.line = line ∧
        let result := host.storeRecord r { pid := pid, startTime := host.garbage, ruid := uid }
        host.readStat pid =
          { result with startTime := host.fromRelativeTime result.starttime, valid := true }) ∧
    (¬ Complete line → (host.readStat pid).valid = false ∧ (host.readStat pid).error ≠ [])

end Host

theorem spacedFields_cons (f : Field) (fields : List Field) :
    spacedFields (f :: fields) = 0x20 :: (f.text ++ spacedFields fields) := by
  simp [spacedFields]

theorem separated_spacedFields {rest : Bytes} (hRest : Separated rest) (fields : List Field) :
    Separated (spacedFields fields ++ rest) := by
  cases fields with
  | nil => exact hRest
  | cons f fields =>
      rw [spacedFields_cons]
      rintro c ⟨⟩
      decide

theorem notMem_spacedFields {c : UInt8} (hSpace : c ≠ 0x20) (h : ∀ f : Field, c ∉ f.text)
    (fields : List Field) : c ∉ spacedFields fields := by
  intro hMem
  obtain ⟨f, -, hMem⟩ := List.mem_flatMap.mp hMem
  rcases List.mem_cons.mp hMem with hEq | hMem
  · exact hSpace hEq
  · exact h f hMem

/-- A complete line has at least a space for each field. -/
theorem Complete.length_le {line : Bytes} (h : Complete line) : 50 ≤ line.length := by
  obtain ⟨r, rfl⟩ := h
  have hSpaced (fields : List Field) : fields.length ≤ (spacedFields fields).length := by
    induction fields with
    | nil => exact Nat.le_refl _
    | cons f fields ih =>
        simp only [spacedFields_cons, List.length_cons, List.length_append]
        omega
  have := hSpaced r.fields
  rw [r.length_fields] at this
  simp only [Record.line, List.length_append]
  omega

/-! ## Parentheses that are not closed -/

theorem cstr_cons {d : UInt8} (h : d ≠ 0) (s : Bytes) : cstr (d :: s) = d :: cstr s := by
  simp [cstr, h]

theorem strrchr_cons {c d : UInt8} (h : d ≠ 0) (s : Bytes) :
    strrchr (d :: s) c =
      match strrchr s c with
      | some i => some (i + 1)
      | none => if d = c then some 0 else none := by
  rw [strrchr, cstr_cons h, lastIndexOf]
  rfl

theorem notMem_of_strrchr_eq_none {c : UInt8} {s : Bytes} (h : strrchr s c = none) :
    c ∉ cstr s := by
  induction s with
  | nil => simp [cstr]
  | cons d s ih =>
      by_cases hd : d = 0
      · simp [cstr, hd]
      rw [strrchr_cons hd] at h
      split at h
      · cases h
      · rename_i hNone
        split at h
        · cases h
        · rename_i hNe
          rw [cstr_cons hd, List.mem_cons, not_or]
          exact ⟨Ne.symm hNe, ih hNone⟩

/-- Up to the last occurrence, the byte is still to come. -/
theorem of_strrchr_eq_some {c : UInt8} {s : Bytes} {i : Nat} (h : strrchr s c = some i) :
    byteAt s i = c ∧ ∀ k ≤ i, c ∈ cstr (s.drop k) := by
  induction s generalizing i with
  | nil => cases h
  | cons d s ih =>
      by_cases hd : d = 0
      · simp [strrchr, cstr, hd, lastIndexOf] at h
      rw [strrchr_cons hd] at h
      split at h
      · rename_i j hSome
        cases h
        obtain ⟨hByte, hMem⟩ := ih hSome
        refine ⟨by simpa [byteAt] using hByte, fun k hk => ?_⟩
        cases k with
        | zero =>
            rw [List.drop_zero, cstr_cons hd]
            exact List.mem_cons_of_mem _ (hMem 0 (Nat.zero_le _))
        | succ k => exact hMem k (Nat.le_of_succ_le_succ hk)
      · split at h
        · rename_i hEq
          cases h
          refine ⟨hEq, fun k hk => ?_⟩
          rw [Nat.le_zero.mp hk, List.drop_zero, cstr_cons hd, hEq]
          exact List.mem_cons_self
        · cases h

theorem drop_of_byteAt_ne {s : Bytes} {i : Nat} (h : byteAt s i ≠ 0) :
    s.drop i = byteAt s i :: s.drop (i + 1) := by
  have hLt : i < s.length := by
    refine Nat.lt_of_not_le fun hLe => h ?_
    simp [byteAt, List.getElem?_eq_none hLe]
  rw [List.drop_eq_getElem_cons hLt]
  simp [byteAt, hLt]

theorem UnclosedAt.byteAt {s : Bytes} {i : Nat} (h : UnclosedAt s i) : byteAt s i = 0x28 := by
  obtain ⟨after, hDrop, -⟩ := h
  exact (of_drop_eq_cons hDrop).2.1

theorem UnclosedAt.lt_length {s : Bytes} {i : Nat} (h : UnclosedAt s i) : i < s.length := by
  obtain ⟨after, hDrop, -⟩ := h
  exact (of_drop_eq_cons hDrop).1

/-- A parenthesis in front of a closing one is closed. -/
theorem not_unclosedAt_of_strrchr {s : Bytes} {stop i k : Nat}
    (h : strrchr (s.drop stop) 0x29 = some i) (hLe : stop ≤ k) (hk : k ≤ stop + i) :
    ¬ UnclosedAt s k := by
  intro hUnclosed
  obtain ⟨hByte, hMem⟩ := of_strrchr_eq_some h
  rcases Nat.lt_or_eq_of_le hk with hLt | hEq
  · obtain ⟨after, hDrop, hNotMem⟩ := hUnclosed
    have hAfter : (s.drop stop).drop (k + 1 - stop) = after := by
      rw [List.drop_drop, ← (of_drop_eq_cons hDrop).2.2]
      congr 1
      omega
    have := hMem (k + 1 - stop) (by omega)
    rw [hAfter] at this
    exact hNotMem this
  · have hOpen := hUnclosed.byteAt
    rw [hEq] at hOpen
    simp [Process.byteAt] at hByte hOpen
    rw [hByte] at hOpen
    cases hOpen

/-- The inner loop fails at a parenthesis that is not closed. -/
theorem unclosedAt_of_fieldEnd_eq_none {s : Bytes} {stop : Nat} (h : fieldEnd s stop = none) :
    ∃ i, stop ≤ i ∧ UnclosedAt s i := by
  fun_induction fieldEnd s stop with
  | case1 stop _ hOpen hNone =>
      refine ⟨stop, Nat.le_refl _, s.drop (stop + 1), ?_, ?_⟩
      · rw [← hOpen]
        exact drop_of_byteAt_ne (by rw [hOpen]; decide)
      · have := notMem_of_strrchr_eq_none hNone
        rw [drop_of_byteAt_ne (by rw [hOpen]; decide), hOpen, cstr_cons (by decide),
          List.mem_cons, not_or] at this
        exact this.2
  | case2 stop _ _ i hSome hZero =>
      have hByte := (of_strrchr_eq_some hSome).1
      simp [byteAt] at hByte hZero
      rw [hZero] at hByte
      cases hByte
  | case3 stop _ _ i _ _ ih =>
      obtain ⟨k, hLe, hUnclosed⟩ := ih h
      exact ⟨k, by omega, hUnclosed⟩
  | case4 stop _ _ ih =>
      obtain ⟨k, hLe, hUnclosed⟩ := ih h
      exact ⟨k, by omega, hUnclosed⟩
  | case5 => cases h

/-- The inner loop passes no parenthesis that is not closed, and does not stop at one. -/
theorem not_unclosedAt_of_fieldEnd {s : Bytes} {stop stop' : Nat}
    (h : fieldEnd s stop = some stop') {k : Nat} (hLe : stop ≤ k) (hk : k ≤ stop') :
    ¬ UnclosedAt s k := by
  fun_induction fieldEnd s stop with
  | case1 => cases h
  | case2 => cases h
  | case3 stop _ _ i hSome _ ih =>
      rcases Nat.lt_or_ge (stop + i) k with hLt | hGe
      · exact ih h hLt
      · exact not_unclosedAt_of_strrchr hSome hLe hGe
  | case4 stop _ hOpen ih =>
      rcases Nat.lt_or_eq_of_le hLe with hLt | rfl
      · exact ih h hLt
      · exact fun hUnclosed => hOpen hUnclosed.byteAt
  | case5 stop hStop =>
      cases h
      cases Nat.le_antisymm hLe hk
      intro hUnclosed
      refine hStop ⟨hUnclosed.lt_length, ?_, ?_⟩
      · rw [hUnclosed.byteAt]
        decide
      · rw [hUnclosed.byteAt]
        decide

namespace Host

variable {Double : Type} {host : Host Double}

theorem storeNumber_valid (index : Nat) (text : Bytes) (result : Stat) :
    (host.storeNumber index text result).valid = result.valid := by
  unfold storeNumber
  split <;> rfl

theorem store_valid (s : Bytes) (index start stop : Nat) (result : Stat) :
    (host.store s index start stop result).valid = result.valid := by
  unfold store
  split
  · rfl
  · split <;> rfl
  · rfl
  · exact storeNumber_valid _ _ _

/-- Scanning fails only at a parenthesis that is not closed. -/
theorem of_scan_eq_error {s : Bytes} {c : Cursor} {result result' : Stat}
    (h : host.scan s c result = .error result') :
    (∃ i, UnclosedAt s i) ∧ result'.valid = result.valid ∧
      result'.error = ascii "Invalid process stat record" := by
  fun_induction host.scan s c result with
  | case1 c result _ hNone =>
      obtain ⟨i, -, hUnclosed⟩ := unclosedAt_of_fieldEnd_eq_none hNone
      cases h
      exact ⟨⟨i, hUnclosed⟩, rfl, rfl⟩
  | case2 c result _ stop _ ih =>
      obtain ⟨hUnclosed, hValid, hError⟩ := ih h
      refine ⟨hUnclosed, hValid.trans ?_, hError⟩
      split
      · exact store_valid _ _ _ _ _
      · rfl
  | case3 => cases h

/-- Scanning that does not fail has passed all parentheses. -/
theorem not_unclosedAt_of_scan {s : Bytes} {c : Cursor} {result result' : Stat}
    (h : host.scan s c result = .ok result') {k : Nat} (hk : c.stop ≤ k) : ¬ UnclosedAt s k := by
  fun_induction host.scan s c result with
  | case1 => cases h
  | case2 c result _ stop hEnd ih =>
      rcases Nat.lt_or_ge stop k with hLt | hGe
      · exact ih h hLt
      · exact not_unclosedAt_of_fieldEnd hEnd hk hGe
  | case3 c result hStart =>
      intro hUnclosed
      exact hStart (Nat.lt_of_le_of_lt (Nat.le_trans c.le_stop hk) hUnclosed.lt_length)

/-- The loop does not fail if and only if all parentheses are closed. -/
theorem scan_ok_iff (s : Bytes) (result : Stat) :
    (∃ result', host.scan s .first result = .ok result') ↔ ¬ Unclosed s := by
  constructor
  · rintro ⟨result', h⟩ ⟨k, hUnclosed⟩
    exact not_unclosedAt_of_scan h (Nat.zero_le k) hUnclosed
  · intro hClosed
    cases h : host.scan s .first result with
    | error result' => exact absurd (of_scan_eq_error h).1 hClosed
    | ok result' => exact ⟨result', rfl⟩

/-- From the last field on, nothing is stored. -/
theorem scan_of_index_le {s : Bytes} {c : Cursor} {result result' : Stat} (hIndex : 52 ≤ c.index)
    (h : host.scan s c result = .ok result') : result' = result := by
  have hStore (index start stop : Nat) (result : Stat) (hIndex : 52 ≤ index) :
      host.store s index start stop result = result := by
    rw [store_of_le (by omega), storeNumber]
    all_goals omega
  fun_induction host.scan s c result with
  | case1 => cases h
  | case2 c result _ stop _ ih =>
      rw [ih (Nat.le_succ_of_le hIndex) h]
      split
      · exact hStore _ _ _ _ hIndex
      · rfl
  | case3 =>
      cases h
      rfl

/-- From the state on, a field is stored no matter where in the line it is. -/
theorem store_drop {s : Bytes} {index start stop stop' : Nat} (h : 2 ≤ index) (result : Stat) :
    host.store s index start stop result = host.store (s.drop start) index 0 stop' result := by
  rcases Nat.lt_or_eq_of_le h with hLt | rfl
  · rw [store_of_le hLt, store_of_le hLt, List.drop_drop]
  · simp only [store, byteAt, List.getD_eq_getElem?_getD, List.getElem?_drop]

/-- The fields from the state on are stored one after the other. -/
theorem scan_fields {s rest : Bytes} (hRest : Separated rest) (fields : List Field) {c : Cursor}
    (hIndex : 2 ≤ c.index) (hStop : c.stop = c.start + 1)
    (hDrop : s.drop c.start = spacedFields fields ++ rest) (result : Stat) :
    ∃ c' : Cursor, c'.index = c.index + fields.length ∧
      host.scan s c result = host.scan s c' (host.storeFields rest c.index fields result) := by
  induction fields generalizing c result with
  | nil => exact ⟨c, rfl, rfl⟩
  | cons f fields ih =>
      have hText : s.drop c.start = 0x20 :: (f.text ++ (spacedFields fields ++ rest)) := by
        rw [hDrop, spacedFields_cons, List.cons_append, List.append_assoc]
      obtain ⟨c', hIndex', hStop', hDrop', hScan⟩ :=
        scan_text host hStop hText (fun d hd => (f.plain d hd).1)
          (separated_spacedFields hRest fields) result
      obtain ⟨c'', hIndex'', hScan'⟩ := ih (by omega) hStop' hDrop'
        (host.store s c.index c.start (c.start + 1 + f.text.length) result)
      refine ⟨c'', by rw [hIndex'', hIndex', List.length_cons]; omega, ?_⟩
      rw [hScan, hScan', hIndex', storeFields, store_drop hIndex, hDrop]

/-- A complete line is stored, unless a parenthesis behind it is not closed. -/
theorem scan_record (r : Record) {result result' : Stat} (hComm : result.comm = [])
    (h : host.scan r.line .first result = .ok result') : result' = host.storeRecord r result := by
  have hFields := separated_spacedFields r.separated_rest r.fields
  have hLine : r.line = r.pid.text ++
      0x20 :: 0x28 :: (r.name ++ 0x29 :: (spacedFields r.fields ++ r.rest)) := by
    simp [Record.line, ascii]
  have hSpace (s : Bytes) : Separated (0x20 :: s) := by
    rintro c ⟨⟩
    decide
  have hZero : 0 ∉ spacedFields r.fields ++ r.rest := by
    rw [List.mem_append, not_or]
    exact ⟨notMem_spacedFields (by decide) (fun f hMem => (f.plain 0 hMem).1.1 rfl) _,
      r.zero_notMem_rest⟩
  have hClose : 0x29 ∉ spacedFields r.fields ++ r.rest := by
    rw [List.mem_append, not_or]
    exact ⟨notMem_spacedFields (by decide) (fun f hMem => (f.plain _ hMem).2 rfl) _,
      r.close_notMem_rest⟩
  obtain ⟨c₁, hIndex₁, hStop₁, hDrop₁, hScan₁⟩ :=
    scan_first host hLine r.pid.ne_nil (fun d hd => (r.pid.plain d hd).1) (hSpace _) result
  obtain ⟨c₂, hIndex₂, hStop₂, hDrop₂, hScan₂⟩ :=
    scan_comm host hIndex₁ hStop₁ hDrop₁ r.zero_notMem_name hZero hClose hFields
      { result with pid := (strtol r.line).toInt32 } hComm
  obtain ⟨c₃, hIndex₃, hScan₃⟩ := scan_fields r.separated_rest r.fields
    (Nat.le_of_eq hIndex₂.symm) hStop₂ hDrop₂
    { result with pid := (strtol r.line).toInt32, comm := r.name }
  rw [hScan₁, hScan₂, hScan₃, hIndex₂] at h
  exact scan_of_index_le (by rw [hIndex₃, hIndex₂, r.length_fields]) h

section

variable {pid : Int32} {uid : UInt32} {content : Bytes}

/-- The record is valid if and only if all parentheses are closed, and there is an error if not. -/
theorem readStat_valid (hStat : host.stat64 (path pid) = some uid)
    (hOpen : host.ifstream (path pid ++ ascii "/stat") = some content) :
    ((host.readStat pid).valid = true ↔ ¬ Unclosed (getline content)) ∧
      ((host.readStat pid).valid = false → (host.readStat pid).error ≠ []) := by
  rw [← host.scan_ok_iff _ { pid := pid, startTime := host.garbage, ruid := uid }]
  simp only [readStat, hStat, hOpen]
  cases hScan : host.scan (getline content) .first
      { pid := pid, startTime := host.garbage, ruid := uid } with
  | error result =>
      obtain ⟨-, hValid, hError⟩ := of_scan_eq_error hScan
      simp [hValid, hError, ascii]
  | ok result => simp

/-- A complete line is read field by field. -/
theorem readStat_record (hStat : host.stat64 (path pid) = some uid)
    (hOpen : host.ifstream (path pid ++ ascii "/stat") = some content) {r : Record}
    (hLine : r.line = getline content) (hValid : (host.readStat pid).valid = true) :
    let result := host.storeRecord r { pid := pid, startTime := host.garbage, ruid := uid }
    host.readStat pid =
      { result with startTime := host.fromRelativeTime result.starttime, valid := true } := by
  obtain ⟨result, hScan⟩ := (host.scan_ok_iff _
    { pid := pid, startTime := host.garbage, ruid := uid }).mpr
      ((readStat_valid hStat hOpen).1.mp hValid)
  have hStored : result = host.storeRecord r _ := scan_record r rfl (hLine ▸ hScan)
  simp only [readStat, hStat, hOpen, hScan, hStored]

/-- A line is valid only if it is complete, or else an error, if and only if it is complete or has
a parenthesis that is not closed. -/
theorem readStat_complete_iff (hStat : host.stat64 (path pid) = some uid)
    (hOpen : host.ifstream (path pid ++ ascii "/stat") = some content) :
    host.ValidIfComplete pid uid (getline content) ↔
      Complete (getline content) ∨ Unclosed (getline content) := by
  obtain ⟨hValid, hError⟩ := readStat_valid hStat hOpen
  constructor
  · intro h
    by_cases hComplete : Complete (getline content)
    · exact .inl hComplete
    · refine .inr (Classical.byContradiction fun hClosed => ?_)
      rw [← hValid, (h.2 hComplete).1] at hClosed
      cases hClosed
  · rintro (⟨r, hLine⟩ | hUnclosed)
    · exact ⟨fun h => ⟨r, hLine, readStat_record hStat hOpen hLine h⟩,
        fun hNot => absurd ⟨r, hLine⟩ hNot⟩
    · have hFalse : (host.readStat pid).valid = false :=
        Bool.eq_false_iff.mpr fun h => hValid.mp h hUnclosed
      refine ⟨fun h => ?_, fun _ => ⟨hFalse, hError hFalse⟩⟩
      rw [hFalse] at h
      cases h

end

theorem readStat_complete_iff_zeros :
    Complete (getline zeros.line) ∧
      ((serving 7 1000 zeros.line).ValidIfComplete 7 1000 (getline zeros.line) ↔
        Complete (getline zeros.line) ∨ Unclosed (getline zeros.line)) := by
  have hLine : getline zeros.line = zeros.line := by decide +kernel
  refine ⟨hLine ▸ ⟨zeros, rfl⟩, readStat_complete_iff (by simp [serving]) (by simp [serving])⟩

/-- An empty file gives a valid record, in which the numbers are those of a new `Stat`. -/
theorem readStat_empty :
    ((serving 7 1000 []).readStat 7).valid = true ∧
      ((serving 7 1000 []).readStat 7).numbers = Stat.numbers { pid := 7, startTime := 0 } ∧
      ¬ (serving 7 1000 []).ValidIfComplete 7 1000 (getline []) := by
  have hValid : ((serving 7 1000 []).readStat 7).valid = true := by
    simp [readStat, serving, getline, scan_of_le]
  refine ⟨hValid, ?_, fun h => ?_⟩
  · simp [readStat, serving, getline, scan_of_le]
    rfl
  · obtain ⟨r, hLine, -⟩ := h.1 hValid
    have := Complete.length_le ⟨r, hLine⟩
    simp [getline] at this

end Host

end Kexplorer.Process

import Kexplorer.Util.Strtol

/-!
# Addresses with a port

`127.0.0.1:8080` and `::1.8080`: the port is what is behind the last separator.
`strtoul` reads it, and a cast to 16 bits cuts what it has read, so that some
texts are taken for a port that they do not write.
-/

namespace Kexplorer.Util

open Kexplorer.Json

/-- `splitAddress`, with the text of the exception. -/
def splitAddress (s : Bytes) : Except Bytes (Bytes × UInt16) :=
  match lastIndexOf 0x2E s, lastIndexOf 0x3A s with
  | some p0, some p1 =>
      let parts :=
        if p1 > p0 then (s.take p1, s.drop (p1 + 1))
        else if p0 > p1 then (s.take p0, s.drop (p0 + 1))
        else ([], [])
      let port := (strtoul parts.2).toUInt16
      if port = 0 then .error (ascii "Invalid server port")
      else .ok (parts.1, port)
  | _, _ => .error (ascii "Invalid server address:port pair")

/-- The address and the text of the port, before and behind the last separator. -/
def Splits (s address port : Bytes) : Prop :=
  ∃ c, (c = 0x2E ∨ c = 0x3A) ∧ s = address ++ c :: port ∧ 0x2E ∉ port ∧ 0x3A ∉ port

/-- A decimal numeral of a port. -/
def WritesPort (text : Bytes) (port : UInt16) : Prop :=
  text ≠ [] ∧ (∀ c ∈ text, isDigit c = true) ∧ ofDigits text = port.toNat ∧ port ≠ 0

/-- The grammar of the two notations. -/
def IsAddress (s address : Bytes) (port : UInt16) : Prop :=
  0x2E ∈ s ∧ 0x3A ∈ s ∧ ∃ text, Splits s address text ∧ WritesPort text port

/-- Exactly the strings of the grammar are accepted, with the port that they write. -/
def SplitsExactly (s : Bytes) : Prop :=
  ∀ address port, splitAddress s = .ok (address, port) ↔ IsAddress s address port

/-- The text starts with a number of which a cast to 16 bits leaves nothing; no number counts
as 0. -/
def Vanishes (text : Bytes) : Prop := (subject text).2 < 2 ^ 64 ∧ 65536 ∣ (subject text).2

/-! ## The port -/

theorem subject_digits {text : Bytes} (hNil : text ≠ []) (hDigits : ∀ c ∈ text, isDigit c = true) :
    subject text = (false, ofDigits text) := by
  have hTake : takeDigits text = text := List.takeWhile_eq_self_iff.mpr hDigits
  cases text with
  | nil => exact absurd rfl hNil
  | cons c text =>
      obtain ⟨hSpace, hMinus, hPlus⟩ := not_isspace_of_isDigit (hDigits c List.mem_cons_self)
      rw [subject, List.dropWhile_cons_of_neg (by simp [hSpace])]
      split
      · rename_i hCons
        exact absurd (List.cons.inj hCons).1 hMinus
      · rename_i hCons
        exact absurd (List.cons.inj hCons).1 hPlus
      · rw [hTake]

/-- A port that is written is read. -/
theorem WritesPort.strtoul {text : Bytes} {port : UInt16} (h : WritesPort text port) :
    (strtoul text).toUInt16 = port := by
  obtain ⟨hNil, hDigits, hValue, -⟩ := h
  have hLt := port.toNat_lt
  rw [Util.strtoul, subject_digits hNil hDigits, hValue, if_neg (by simp only; omega),
    if_neg (by simp)]
  apply UInt16.toNat_inj.mp
  rw [UInt64.toNat_toUInt16, UInt64.toNat_ofNat']
  omega

/-- The cast leaves nothing of a multiple of 65536, unless `strtoul` ends at its maximum. -/
theorem vanishes_iff (text : Bytes) : (strtoul text).toUInt16 = 0 ↔ Vanishes text := by
  rw [← UInt16.toNat_inj, UInt64.toNat_toUInt16, Vanishes, strtoul]
  generalize (subject text).2 = n
  have hZero : (0 : UInt16).toNat = 0 := rfl
  by_cases hLt : 2 ^ 64 ≤ n
  · rw [if_pos hLt, UInt64.toNat_ofNat']
    omega
  · rw [if_neg hLt]
    split
    · rw [UInt64.toNat_neg, UInt64.toNat_ofNat', UInt64.size]
      omega
    · rw [UInt64.toNat_ofNat']
      omega

/-! ## The last separator -/

theorem exists_splits {s : Bytes} (h : 0x2E ∈ s ∨ 0x3A ∈ s) :
    ∃ address port, Splits s address port := by
  induction s with
  | nil => rcases h with h | h <;> cases h
  | cons d s ih =>
      by_cases hTail : 0x2E ∈ s ∨ 0x3A ∈ s
      · obtain ⟨address, port, c, hc, hEq, hNot⟩ := ih hTail
        exact ⟨d :: address, port, c, hc, by rw [hEq]; rfl, hNot⟩
      · rw [not_or] at hTail
        refine ⟨[], s, d, ?_, rfl, hTail⟩
        rcases h with h | h
        · exact .inl ((List.mem_cons.mp h).resolve_right hTail.1).symm
        · exact .inr ((List.mem_cons.mp h).resolve_right hTail.2).symm

/-- A separator in the port is not the last one. -/
theorem Splits.of_append {e address address' port port' : Bytes} {c c' : UInt8}
    (hc' : c' = 0x2E ∨ c' = 0x3A) (hDot : 0x2E ∉ port) (hColon : 0x3A ∉ port)
    (hAddress : address' = address ++ e) (hPort : c :: port = e ++ c' :: port') :
    address = address' ∧ port = port' := by
  cases e with
  | nil => exact ⟨by rw [hAddress, List.append_nil], (List.cons.inj hPort).2⟩
  | cons d e =>
      have hMem : c' ∈ port := by
        rw [(List.cons.inj hPort).2]
        simp
      rcases hc' with rfl | rfl
      · exact absurd hMem hDot
      · exact absurd hMem hColon

/-- There is one last separator. -/
theorem Splits.unique {s address address' text text' : Bytes} (h : Splits s address text)
    (h' : Splits s address' text') : address = address' ∧ text = text' := by
  obtain ⟨c, hc, rfl, hDot, hColon⟩ := h
  obtain ⟨c', hc', hEq, hDot', hColon'⟩ := h'
  rcases List.append_eq_append_iff.mp hEq with ⟨e, hAddress, hPort⟩ | ⟨e, hAddress, hPort⟩
  · exact Splits.of_append hc' hDot hColon hAddress hPort
  · obtain ⟨h₁, h₂⟩ := Splits.of_append hc hDot' hColon' hAddress hPort
    exact ⟨h₁.symm, h₂.symm⟩

/-- With both separators, the port is what is behind the later one. -/
theorem splitAddress_eq {s address text : Bytes} (hDot : 0x2E ∈ s) (hColon : 0x3A ∈ s)
    (h : Splits s address text) :
    splitAddress s =
      if (strtoul text).toUInt16 = 0 then .error (ascii "Invalid server port")
      else .ok (address, (strtoul text).toUInt16) := by
  obtain ⟨c, hc, rfl, hNoDot, hNoColon⟩ := h
  have hTake : (address ++ c :: text).take address.length = address := List.take_left
  have hDrop : (address ++ c :: text).drop (address.length + 1) = text := by
    simp
  rcases hc with rfl | rfl
  · have hMem : 0x3A ∈ address := by
      simpa [hNoColon] using hColon
    obtain ⟨i, hSome, hLt⟩ := exists_lastIndexOf hMem
    rw [splitAddress, lastIndexOf_append address hNoDot,
      lastIndexOf_append_of_notMem address (by simp [hNoColon]), hSome]
    simp only [if_neg (Nat.lt_asymm hLt), if_pos hLt, hTake, hDrop]
  · have hMem : 0x2E ∈ address := by
      simpa [hNoDot] using hDot
    obtain ⟨i, hSome, hLt⟩ := exists_lastIndexOf hMem
    rw [splitAddress, lastIndexOf_append address hNoColon,
      lastIndexOf_append_of_notMem address (by simp [hNoDot]), hSome]
    simp only [if_pos hLt, hTake, hDrop]

/-- Without one of the separators there is an exception. -/
theorem splitAddress_of_notMem {s : Bytes} (h : 0x2E ∉ s ∨ 0x3A ∉ s) :
    splitAddress s = .error (ascii "Invalid server address:port pair") := by
  rw [splitAddress]
  rcases h with h | h
  · rw [lastIndexOf_eq_none h]
  · rw [lastIndexOf_eq_none h]
    split
    · rename_i hNone
      cases hNone
    · rfl

/-- A string is split exactly if it lacks a separator, or what is behind the last one is a port or
starts with a number that the cast makes 0. -/
theorem splitsExactly_iff (s : Bytes) :
    SplitsExactly s ↔
      (0x2E ∈ s → 0x3A ∈ s → ∀ address text, Splits s address text →
        (∃ port, WritesPort text port) ∨ Vanishes text) := by
  constructor
  · intro h hDot hColon address text hSplits
    rw [Classical.or_iff_not_imp_right, ← vanishes_iff]
    intro hPort
    have hOk := splitAddress_eq hDot hColon hSplits
    rw [if_neg hPort] at hOk
    obtain ⟨-, -, text', hSplits', hWrites⟩ := (h _ _).mp hOk
    rw [(hSplits.unique hSplits').2]
    exact ⟨_, hWrites⟩
  · intro h address port
    by_cases hMem : 0x2E ∈ s ∧ 0x3A ∈ s
    · obtain ⟨hDot, hColon⟩ := hMem
      obtain ⟨address', text, hSplits⟩ := exists_splits (.inl hDot)
      rw [splitAddress_eq hDot hColon hSplits]
      constructor
      · intro hOk
        split at hOk
        · cases hOk
        · rename_i hPort
          cases hOk
          rw [vanishes_iff] at hPort
          obtain ⟨port, hWrites⟩ := (h hDot hColon _ _ hSplits).resolve_right hPort
          rw [hWrites.strtoul]
          exact ⟨hDot, hColon, text, hSplits, hWrites⟩
      · rintro ⟨-, -, text', hSplits', hWrites⟩
        obtain ⟨rfl, rfl⟩ := hSplits.unique hSplits'
        rw [hWrites.strtoul, if_neg hWrites.2.2.2]
    · rw [splitAddress_of_notMem (Classical.not_and_iff_not_or_not.mp hMem)]
      refine iff_of_false (fun hOk => ?_) (fun hGrammar => hMem ⟨hGrammar.1, hGrammar.2.1⟩)
      cases hOk

/-- A port above 65535 is taken for another one. -/
theorem wrapped_port_accepted :
    splitAddress (ascii "1.2.3.4:65537") = .ok (ascii "1.2.3.4", 1) ∧
      ¬ SplitsExactly (ascii "1.2.3.4:65537") := by
  have hOk : splitAddress (ascii "1.2.3.4:65537") = .ok (ascii "1.2.3.4", 1) := by
    decide +kernel
  refine ⟨hOk, fun h => ?_⟩
  obtain ⟨-, -, text, hSplits, -, -, hValue, -⟩ := (h _ _).mp hOk
  have hText : Splits (ascii "1.2.3.4:65537") (ascii "1.2.3.4") (ascii "65537") :=
    ⟨0x3A, .inr rfl, by decide, by decide, by decide⟩
  rw [(hSplits.unique hText).2] at hValue
  exact absurd hValue (by decide)

end Kexplorer.Util

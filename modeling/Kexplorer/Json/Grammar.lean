import Kexplorer.Json.Value

/-!
# The grammar of JSON

The productions of JSON over bytes, as one inductive family over its recursive
nonterminals.  What may stand unescaped in a string is a parameter of the
grammar: `unescaped` is what JSON allows, and a smaller set describes texts
whose strings avoid some bytes.

`derives_render` says that the text of every value is generated.
-/

namespace Kexplorer.Json

/-! ## Tokens -/

def Ws (s : Bytes) : Prop := ∀ c ∈ s, c = 0x20 ∨ c = 0x09 ∨ c = 0x0A ∨ c = 0x0D

def isDigit (c : UInt8) : Bool := decide (0x30 ≤ c ∧ c ≤ 0x39)

def isHexDigit (c : UInt8) : Bool :=
  isDigit c || decide (0x41 ≤ c ∧ c ≤ 0x46) || decide (0x61 ≤ c ∧ c ≤ 0x66)

/-- What JSON lets stand unescaped in a string: no control character, quotation
mark or backslash. -/
def unescaped (c : UInt8) : Prop := 0x20 ≤ c ∧ c ≠ 0x22 ∧ c ≠ 0x5C

/-- The letters that may follow a backslash by themselves. -/
def escapes : Bytes := ascii "\"\\/bfnrt"

/-- What stands between the quotation marks of a string. -/
inductive Chars (raw : UInt8 → Prop) : Bytes → Prop
  | nil : Chars raw []
  | raw {c : UInt8} {s : Bytes} : raw c → Chars raw s → Chars raw (c :: s)
  | escape {e : UInt8} {s : Bytes} : e ∈ escapes → Chars raw s → Chars raw (0x5C :: e :: s)
  | unicode {h : Bytes} {s : Bytes} : h.length = 4 → (∀ c ∈ h, isHexDigit c = true) →
      Chars raw s → Chars raw (0x5C :: 0x75 :: (h ++ s))

/-- A string with its quotation marks. -/
def StringLit (raw : UInt8 → Prop) (s : Bytes) : Prop :=
  ∃ t, Chars raw t ∧ s = 0x22 :: (t ++ [0x22])

def Digits (s : Bytes) : Prop := s ≠ [] ∧ ∀ c ∈ s, isDigit c = true

/-- The digits before the point: a zero, or digits without a leading zero. -/
def IntPart (s : Bytes) : Prop := s = [0x30] ∨ Digits s ∧ s.head? ≠ some 0x30

def FracPart (s : Bytes) : Prop := s = [] ∨ ∃ d, Digits d ∧ s = 0x2E :: d

def ExpPart (s : Bytes) : Prop :=
  s = [] ∨ ∃ e sign d, (e = 0x65 ∨ e = 0x45) ∧ (sign = [] ∨ sign = [0x2B] ∨ sign = [0x2D]) ∧
    Digits d ∧ s = e :: (sign ++ d)

def Number (s : Bytes) : Prop :=
  ∃ minus int frac exp, (minus = [] ∨ minus = [0x2D]) ∧ IntPart int ∧ FracPart frac ∧
    ExpPart exp ∧ s = minus ++ int ++ frac ++ exp

/-! ## Values -/

inductive Nonterminal
  | value
  | object
  | elements
  | members

/-- `Derives raw n s`: the nonterminal `n` generates `s`. -/
inductive Derives (raw : UInt8 → Prop) : Nonterminal → Bytes → Prop
  | litNull : Derives raw .value (ascii "null")
  | litTrue : Derives raw .value (ascii "true")
  | litFalse : Derives raw .value (ascii "false")
  | number {s : Bytes} : Number s → Derives raw .value s
  | string {s : Bytes} : StringLit raw s → Derives raw .value s
  | emptyArray {w : Bytes} : Ws w → Derives raw .value (0x5B :: (w ++ [0x5D]))
  | array {s : Bytes} : Derives raw .elements s → Derives raw .value (0x5B :: (s ++ [0x5D]))
  | ofObject {s : Bytes} : Derives raw .object s → Derives raw .value s
  | emptyObject {w : Bytes} : Ws w → Derives raw .object (0x7B :: (w ++ [0x7D]))
  | object {s : Bytes} : Derives raw .members s → Derives raw .object (0x7B :: (s ++ [0x7D]))
  | element {w₁ s w₂ : Bytes} : Ws w₁ → Derives raw .value s → Ws w₂ →
      Derives raw .elements (w₁ ++ s ++ w₂)
  | elements {s r : Bytes} : Derives raw .elements s → Derives raw .elements r →
      Derives raw .elements (s ++ 0x2C :: r)
  | member {w₁ k w₂ w₃ s w₄ : Bytes} : Ws w₁ → StringLit raw k → Ws w₂ → Ws w₃ →
      Derives raw .value s → Ws w₄ →
      Derives raw .members (w₁ ++ k ++ w₂ ++ 0x3A :: (w₃ ++ s ++ w₄))
  | members {s r : Bytes} : Derives raw .members s → Derives raw .members r →
      Derives raw .members (s ++ 0x2C :: r)

/-- A JSON text that is an object, without whitespace around it. -/
def IsObject (s : Bytes) : Prop := Derives unescaped .object s

/-- A JSON text. -/
def IsJson (s : Bytes) : Prop :=
  ∃ w₁ v w₂, Ws w₁ ∧ Derives unescaped .value v ∧ Ws w₂ ∧ s = w₁ ++ v ++ w₂

/-- A JSON text that is an object. -/
def IsJsonObject (s : Bytes) : Prop :=
  ∃ w₁ v w₂, Ws w₁ ∧ IsObject v ∧ Ws w₂ ∧ s = w₁ ++ v ++ w₂

theorem ws_nil : Ws [] := fun _ h => by simp at h

/-! ## The bytes of a token -/

/-- A byte that a token can hold whatever may stand unescaped in strings. -/
def isTokenByte (c : UInt8) : Bool := isHexDigit c || (ascii " \t\n\r\"\\/nrtu+-.e").contains c

theorem isTokenByte_of_isDigit {c : UInt8} (h : isDigit c = true) : isTokenByte c = true := by
  simp [isTokenByte, isHexDigit, h]

theorem Ws.mem {s : Bytes} (h : Ws s) {c : UInt8} (hc : c ∈ s) : isTokenByte c = true := by
  rcases h c hc with rfl | rfl | rfl | rfl <;> decide

theorem Digits.mem {s : Bytes} (h : Digits s) {c : UInt8} (hc : c ∈ s) : isTokenByte c = true :=
  isTokenByte_of_isDigit (h.2 c hc)

theorem Number.mem {s : Bytes} (h : Number s) {c : UInt8} (hc : c ∈ s) :
    isTokenByte c = true := by
  obtain ⟨minus, int, frac, exp, hMinus, hInt, hFrac, hExp, rfl⟩ := h
  simp only [List.mem_append] at hc
  obtain ((hc | hc) | hc) | hc := hc
  · rcases hMinus with rfl | rfl
    · simp at hc
    · rw [List.mem_singleton.mp hc]
      decide
  · rcases hInt with rfl | ⟨hDigits, -⟩
    · rw [List.mem_singleton.mp hc]
      decide
    · exact hDigits.mem hc
  · rcases hFrac with rfl | ⟨d, hd, rfl⟩
    · simp at hc
    · rcases List.mem_cons.mp hc with rfl | hc
      · decide
      · exact hd.mem hc
  · rcases hExp with rfl | ⟨e, sign, d, he, hSign, hd, rfl⟩
    · simp at hc
    · rcases List.mem_cons.mp hc with rfl | hc
      · rcases he with rfl | rfl <;> decide
      rcases List.mem_append.mp hc with hc | hc
      · rcases hSign with rfl | rfl | rfl
        · simp at hc
        · rw [List.mem_singleton.mp hc]
          decide
        · rw [List.mem_singleton.mp hc]
          decide
      · exact hd.mem hc

theorem Chars.mem {raw : UInt8 → Prop} {s : Bytes} (h : Chars raw s) {c : UInt8} (hc : c ∈ s) :
    raw c ∨ isTokenByte c = true := by
  induction h with
  | nil => simp at hc
  | raw hRaw _ ih =>
      rcases List.mem_cons.mp hc with rfl | hc
      · exact .inl hRaw
      · exact ih hc
  | escape he _ ih =>
      rcases List.mem_cons.mp hc with rfl | hc
      · exact .inr (by decide)
      rcases List.mem_cons.mp hc with rfl | hc
      · have hAll : ∀ e ∈ escapes, isTokenByte e = true := by decide +kernel
        exact .inr (hAll _ he)
      · exact ih hc
  | unicode _ hHex _ ih =>
      rcases List.mem_cons.mp hc with rfl | hc
      · exact .inr (by decide)
      rcases List.mem_cons.mp hc with rfl | hc
      · exact .inr (by decide)
      rcases List.mem_append.mp hc with hc | hc
      · exact .inr (by simp [isTokenByte, hHex _ hc])
      · exact ih hc

theorem StringLit.mem {raw : UInt8 → Prop} {s : Bytes} (h : StringLit raw s) {c : UInt8}
    (hc : c ∈ s) : raw c ∨ isTokenByte c = true := by
  obtain ⟨t, ht, rfl⟩ := h
  rcases List.mem_cons.mp hc with rfl | hc
  · exact .inr (by decide)
  rcases List.mem_append.mp hc with hc | hc
  · exact ht.mem hc
  · rw [List.mem_singleton.mp hc]
    exact .inr (by decide)

/-- An object starts with its brace. -/
theorem Derives.head {raw : UInt8 → Prop} {s : Bytes} (h : Derives raw .object s) :
    ∃ t, s = 0x7B :: t := by
  cases h with
  | emptyObject => exact ⟨_, rfl⟩
  | object => exact ⟨_, rfl⟩

/-- A byte that is not allowed in strings, in tokens or as punctuation does not
occur in a text. -/
theorem Derives.notMem {raw : UInt8 → Prop} {c : UInt8} (hRaw : ¬ raw c)
    (hToken : isTokenByte c = false) (hPunct : c ∉ ascii "nulltruefalse[]\x7b\x7d:,")
    {n : Nonterminal} {s : Bytes} (h : Derives raw n s) : c ∉ s := by
  have hWs {w : Bytes} (hw : Ws w) : c ∉ w := fun hc => by simp [hw.mem hc] at hToken
  have hString {k : Bytes} (hk : StringLit raw k) : c ∉ k := fun hc => by
    rcases hk.mem hc with hc | hc
    · exact hRaw hc
    · simp [hc] at hToken
  have hMark {p : UInt8} (hp : p ∈ ascii "nulltruefalse[]\x7b\x7d:,") : c ≠ p := fun hc =>
    hPunct (hc ▸ hp)
  induction h with
  | litNull => exact fun hc => hPunct (List.subset_def.mp (by decide) hc)
  | litTrue => exact fun hc => hPunct (List.subset_def.mp (by decide) hc)
  | litFalse => exact fun hc => hPunct (List.subset_def.mp (by decide) hc)
  | number h => exact fun hc => by simp [h.mem hc] at hToken
  | string h => exact hString h
  | emptyArray hw => simp [hWs hw, hMark (p := 0x5B) (by decide), hMark (p := 0x5D) (by decide)]
  | array _ ih => simp [ih, hMark (p := 0x5B) (by decide), hMark (p := 0x5D) (by decide)]
  | ofObject _ ih => exact ih
  | emptyObject hw => simp [hWs hw, hMark (p := 0x7B) (by decide), hMark (p := 0x7D) (by decide)]
  | object _ ih => simp [ih, hMark (p := 0x7B) (by decide), hMark (p := 0x7D) (by decide)]
  | element h₁ _ h₂ ih => simp [hWs h₁, hWs h₂, ih]
  | elements _ _ ih₁ ih₂ => simp [ih₁, ih₂, hMark (p := 0x2C) (by decide)]
  | member h₁ hk h₂ h₃ _ h₄ ih =>
      simp [hWs h₁, hWs h₂, hWs h₃, hWs h₄, hString hk, ih, hMark (p := 0x3A) (by decide)]
  | members _ _ ih₁ ih₂ => simp [ih₁, ih₂, hMark (p := 0x2C) (by decide)]

/-! ## The text of a value is JSON -/

theorem isDigit_of_mem_decimal {n : Nat} {c : UInt8} (h : c ∈ decimal n) : isDigit c = true := by
  obtain ⟨d, hd, rfl⟩ := List.mem_map.mp h
  have hDigit := Nat.isDigit_of_mem_toDigits (by decide) (by decide) hd
  simp only [Char.isDigit, ge_iff_le, Bool.and_eq_true, decide_eq_true_eq] at hDigit
  have h1 : 48 ≤ d.toNat := hDigit.1
  have h2 : d.toNat ≤ 57 := hDigit.2
  have hMod : d.toNat.toUInt8.toNat = d.toNat := by
    rw [UInt8.toNat_ofNat']
    omega
  simp only [isDigit, decide_eq_true_eq, UInt8.le_iff_toNat_le, hMod]
  exact ⟨h1, h2⟩

theorem decimal_ne_nil (n : Nat) : decimal n ≠ [] := by
  simp [decimal, Nat.toDigits_ne_nil]

private theorem headDigit_ne : ∀ n, n < 10 → 0 < n → [0x30 + n.toUInt8].head? ≠ some 0x30 := by
  decide

/-- The digits of a positive number start with a positive digit. -/
theorem head_decimal {n : Nat} (h : 0 < n) : (decimal n).head? ≠ some 0x30 := by
  induction n using Nat.strongRecOn with
  | ind n ih =>
      rcases Nat.lt_or_ge n 10 with hLt | hGe
      · rw [decimal_of_lt hLt]
        exact headDigit_ne n hLt h
      · have hRest := ih (n / 10) (by omega) (by omega)
        rw [decimal_of_le hGe, List.head?_append_of_ne_nil _ (decimal_ne_nil _)]
        exact hRest

theorem digits_decimal (n : Nat) : Digits (decimal n) :=
  ⟨decimal_ne_nil n, fun _ => isDigit_of_mem_decimal⟩

theorem intPart_decimal (n : Nat) : IntPart (decimal n) := by
  rcases Nat.eq_zero_or_pos n with rfl | hPos
  · exact .inl rfl
  · exact .inr ⟨digits_decimal n, head_decimal hPos⟩

theorem number_render (n : Integer) : Number n.render := by
  rw [Integer.render]
  split
  · exact ⟨[0x2D], decimal n.val.natAbs, [], [], .inr rfl, intPart_decimal _, .inl rfl, .inl rfl,
      by simp⟩
  · exact ⟨[], decimal n.val.natAbs, [], [], .inl rfl, intPart_decimal _, .inl rfl, .inl rfl,
      by simp⟩

private theorem hexDigit_all : ∀ n : Fin 16, isHexDigit (hexDigit (UInt8.ofNat n)) = true := by
  decide

theorem isHexDigit_hexDigit {n : UInt8} (h : n.toNat < 16) : isHexDigit (hexDigit n) = true := by
  have := hexDigit_all ⟨n.toNat, h⟩
  rwa [UInt8.ofNat_toNat] at this

theorem toNat_high (c : UInt8) : (c >>> 4).toNat = c.toNat / 16 := by
  rw [UInt8.toNat_shiftRight]
  exact Nat.shiftRight_eq_div_pow _ _

theorem toNat_low (c : UInt8) : (c &&& 0xF).toNat = c.toNat % 16 := by
  rw [UInt8.toNat_and]
  exact Nat.and_two_pow_sub_one_eq_mod c.toNat 4

theorem chars_escapeByte (c : UInt8) {s : Bytes} (h : Chars unescaped s) :
    Chars unescaped (escapeByte c ++ s) := by
  have hEscape : ∀ e, e ∈ escapes → Chars unescaped ([0x5C, e] ++ s) := fun e he => .escape he h
  rw [escapeByte]
  split
  · exact hEscape _ (by decide)
  split
  · exact hEscape _ (by decide)
  split
  · exact hEscape _ (by decide)
  split
  · exact hEscape _ (by decide)
  split
  · exact hEscape _ (by decide)
  split
  · exact hEscape _ (by decide)
  split
  · exact hEscape _ (by decide)
  split
  · refine Chars.unicode (h := [0x30, 0x30, hexDigit (c >>> 4), hexDigit (c &&& 0xF)]) rfl ?_ h
    have hHigh : isHexDigit (hexDigit (c >>> 4)) = true :=
      isHexDigit_hexDigit (by rw [toNat_high]; have := c.toNat_lt; omega)
    have hLow : isHexDigit (hexDigit (c &&& 0xF)) = true :=
      isHexDigit_hexDigit (by rw [toNat_low]; omega)
    simp only [List.forall_mem_cons, hHigh, hLow]
    decide +kernel
  · refine .raw ⟨UInt8.not_lt.mp ?_, ?_, ?_⟩ h <;> assumption

theorem stringLit_quote (s : Bytes) : StringLit unescaped (quote s) := by
  refine ⟨escape s, ?_, rfl⟩
  induction s with
  | nil => exact .nil
  | cons c s ih => exact chars_escapeByte c ih

mutual

theorem derives_render : ∀ v : Value Empty, Derives unescaped .value v.render
  | .null => .litNull
  | .bool b => by
      cases b with
      | false => exact .litFalse
      | true => exact .litTrue
  | .integer n => .number (number_render n)
  | .string s => .string (stringLit_quote s)
  | .array items => by
      by_cases hItems : items = []
      · subst hItems
        exact .emptyArray ws_nil
      · exact .array (derives_renderItems items hItems)
  | .object members => by
      by_cases hMembers : members = []
      · subst hMembers
        exact .ofObject (.emptyObject ws_nil)
      · exact .ofObject (.object (derives_renderMembers members hMembers))

theorem derives_renderItems : ∀ items : List (Value Empty), items ≠ [] →
    Derives unescaped .elements (Value.renderItems items)
  | [], h => absurd rfl h
  | [v], _ => by
      have h := Derives.element ws_nil (derives_render v) ws_nil
      simpa [Value.renderItems, Value.renderItemsTail] using h
  | v :: w :: items, _ => by
      have h := Derives.element ws_nil (derives_render v) ws_nil
      have hMore := Derives.elements h (derives_renderItems (w :: items) (List.cons_ne_nil _ _))
      simpa [Value.renderItems, Value.renderItemsTail] using hMore

theorem derives_renderMembers : ∀ members : List (Bytes × Value Empty), members ≠ [] →
    Derives unescaped .members (Value.renderMembers members)
  | [], h => absurd rfl h
  | [(name, v)], _ => by
      have h := Derives.member ws_nil (stringLit_quote name) ws_nil ws_nil (derives_render v) ws_nil
      simpa [Value.renderMembers, Value.renderMembersTail] using h
  | (name, v) :: (name', w) :: members, _ => by
      have h := Derives.member ws_nil (stringLit_quote name) ws_nil ws_nil (derives_render v) ws_nil
      have hMore := Derives.members h
        (derives_renderMembers ((name', w) :: members) (List.cons_ne_nil _ _))
      simpa [Value.renderMembers, Value.renderMembersTail] using hMore

end

theorem zero_notMem_render (v : Value Empty) : 0 ∉ v.render :=
  (derives_render v).notMem (fun h => absurd h.1 (by decide)) (by decide) (by decide)

theorem isJson_render (v : Value Empty) : IsJson v.render :=
  ⟨[], v.render, [], ws_nil, derives_render v, ws_nil, by simp⟩

/-- The text of an object is an object. -/
theorem isObject_render (members : List (Bytes × Value Empty)) :
    IsObject (Value.render (.object members)) := by
  by_cases h : members = []
  · subst h
    exact .emptyObject ws_nil
  · exact .object (derives_renderMembers members h)

end Kexplorer.Json

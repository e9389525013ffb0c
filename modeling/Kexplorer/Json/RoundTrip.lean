import Kexplorer.Json.Reader

/-!
# Reading what was written

The reader gives back every value whose text the writer produces.  The proof
goes from the leaves up: escaped bytes, strings, decimal numbers, and then
values, items and members together.  `Ends` says what may follow a value, which
matters for numbers only.
-/

namespace Kexplorer.Json

/-! ## Strings -/

private theorem hexValue_hexDigit_all :
    ∀ n : Fin 16, hexValue (hexDigit (UInt8.ofNat n)) = some n.val := by
  decide

theorem hexValue_hexDigit {n : UInt8} (h : n.toNat < 16) :
    hexValue (hexDigit n) = some n.toNat := by
  have := hexValue_hexDigit_all ⟨n.toNat, h⟩
  rwa [UInt8.ofNat_toNat] at this

/-- The four digits of a control character denote it. -/
theorem parseHex4_control {c : UInt8} (h : c < 0x20) :
    parseHex4 0x30 0x30 (hexDigit (c >>> 4)) (hexDigit (c &&& 0xF)) = some c.toNat := by
  have hLt : c.toNat < 32 := UInt8.lt_iff_toNat_lt.mp h
  have hHigh := hexValue_hexDigit (n := c >>> 4) (by rw [toNat_high]; omega)
  have hLow := hexValue_hexDigit (n := c &&& 0xF) (by rw [toNat_low]; omega)
  rw [toNat_high] at hHigh
  rw [toNat_low] at hLow
  have hZero : hexValue 0x30 = some 0 := by decide
  simp only [parseHex4, hHigh, hLow, hZero, Option.bind_eq_bind, Option.bind_some,
    Option.pure_def, Option.some.injEq]
  omega

theorem encodeUtf8_byte {c : UInt8} (h : c < 0x20) : encodeUtf8 c.toNat = [c] := by
  have hLt : c.toNat < 32 := UInt8.lt_iff_toNat_lt.mp h
  rw [encodeUtf8, if_pos (by omega)]
  simp

theorem parseString_quote (rest : Bytes) : parseString (0x22 :: rest) = .ok ([], rest) := by
  rw [parseString.eq_def]
  rfl

theorem parseString_short {e b : UInt8} (h : unescapeByte e = some b) (s : Bytes) :
    parseString (0x5C :: e :: s) = prepend [b] (parseString s) := by
  rw [parseString.eq_def]
  simp only [h, if_true]

theorem parseString_control {c : UInt8} (h : c < 0x20) (s : Bytes) :
    parseString (0x5C :: 0x75 :: 0x30 :: 0x30 :: hexDigit (c >>> 4) :: hexDigit (c &&& 0xF) :: s) =
      prepend [c] (parseString s) := by
  have hLt : c.toNat < 32 := UInt8.lt_iff_toNat_lt.mp h
  have hSurrogate : ¬ (0xD800 ≤ c.toNat ∧ c.toNat ≤ 0xDFFF) := by omega
  have hU : unescapeByte 0x75 = none := by decide
  rw [parseString.eq_def]
  simp only [hU, parseHex4_control h, if_true, if_neg hSurrogate, encodeUtf8_byte h]

theorem parseString_plain {c : UInt8} (hQuote : c ≠ 0x22) (hBackslash : c ≠ 0x5C)
    (hPlain : ¬ c < 0x20) (s : Bytes) : parseString (c :: s) = prepend [c] (parseString s) := by
  rw [parseString.eq_def]
  simp only [hQuote, hBackslash, hPlain, if_false]

/-- An escaped byte is read back. -/
theorem parseString_escapeByte (c : UInt8) (s : Bytes) :
    parseString (escapeByte c ++ s) = prepend [c] (parseString s) := by
  rw [escapeByte]
  split
  · subst_vars; exact parseString_short rfl s
  split
  · subst_vars; exact parseString_short rfl s
  split
  · subst_vars; exact parseString_short rfl s
  split
  · subst_vars; exact parseString_short rfl s
  split
  · subst_vars; exact parseString_short rfl s
  split
  · subst_vars; exact parseString_short rfl s
  split
  · subst_vars; exact parseString_short rfl s
  split
  · exact parseString_control (by assumption) s
  · exact parseString_plain (by assumption) (by assumption) (by assumption) s

theorem parseString_escape (s rest : Bytes) :
    parseString (escape s ++ 0x22 :: rest) = .ok (s, rest) := by
  induction s with
  | nil => exact parseString_quote rest
  | cons c s ih =>
      rw [escape, List.append_assoc, parseString_escapeByte, ih]
      rfl

/-! ## Numbers -/

theorem ofDigits_append (l : Bytes) (c : UInt8) :
    ofDigits (l ++ [c]) = ofDigits l * 10 + (c.toNat - 0x30) := by
  simp [ofDigits]

private theorem digit_value : ∀ d, d < 10 → (0x30 + d.toUInt8).toNat - 0x30 = d := by
  decide

theorem ofDigits_decimal (n : Nat) : ofDigits (decimal n) = n := by
  induction n using Nat.strongRecOn with
  | ind n ih =>
      rcases Nat.lt_or_ge n 10 with hLt | hGe
      · rw [decimal_of_lt hLt]
        simpa [ofDigits] using digit_value n hLt
      · rw [decimal_of_le hGe, ofDigits_append, ih _ (by omega), digit_value _ (by omega)]
        omega

/-- What may follow a value in a written text. -/
def Ends (rest : Bytes) : Prop :=
  rest = [] ∨ ∃ c t, rest = c :: t ∧ (c = 0x2C ∨ c = 0x5D ∨ c = 0x7D)

theorem Ends.takeDigits_append {rest digits : Bytes} (h : Ends rest)
    (hDigits : ∀ c ∈ digits, isDigit c = true) : takeDigits (digits ++ rest) = digits := by
  rw [takeDigits, List.takeWhile_append_of_pos hDigits]
  obtain rfl | ⟨c, t, rfl, rfl | rfl | rfl⟩ := h
  · simp
  · simp [isDigit]
  · simp [isDigit]
  · simp [isDigit]

theorem Ends.parseFrac {rest : Bytes} (h : Ends rest) : parseFrac rest = .ok ([], rest) := by
  obtain rfl | ⟨c, t, rfl, rfl | rfl | rfl⟩ := h <;> rfl

theorem Ends.parseExp {rest : Bytes} (h : Ends rest) : parseExp rest = .ok ([], rest) := by
  obtain rfl | ⟨c, t, rfl, rfl | rfl | rfl⟩ := h <;> rfl

theorem needDigits_append {code : ParseErrorCode} {digits rest : Bytes} (h : Ends rest)
    (hDigits : Digits digits) : needDigits code (digits ++ rest) = .ok (digits, rest) := by
  rw [needDigits, h.takeDigits_append hDigits.2]
  split
  · exact absurd rfl hDigits.1
  · rw [List.drop_left]

theorem parseInt_append {int rest : Bytes} (h : Ends rest) (hInt : IntPart int) :
    parseInt (int ++ rest) = .ok (int, rest) := by
  rcases hInt with rfl | ⟨hDigits, hHead⟩
  · rfl
  · cases int with
    | nil => exact absurd rfl hDigits.1
    | cons c int =>
        have hc : c ≠ 0x30 := by simpa using hHead
        rw [List.cons_append, parseInt]
        · rw [← List.cons_append]
          exact needDigits_append h hDigits
        · rintro t ⟨⟩
          exact hc rfl

variable (strtod : Bytes → Option Double)

theorem numberOf_render (n : Integer) :
    numberOf strtod (decide (n.val < 0)) (decimal n.val.natAbs) [] [] = some (.integer n) := by
  have hVal : (if decide (n.val < 0) = true then -(n.val.natAbs : Int) else n.val.natAbs) =
      n.val := by
    split <;> rename_i h <;> simp only [decide_eq_true_eq] at h <;> omega
  have hFits := n.fits
  simp only [numberOf, ofDigits_decimal, hVal]
  rw [dif_pos ⟨trivial, trivial, hFits⟩]

/-- Digits do not start with a minus sign. -/
theorem parseMinus_digits {digits : Bytes} (h : Digits digits) (rest : Bytes) :
    parseMinus (digits ++ rest) = (false, digits ++ rest) := by
  cases digits with
  | nil => exact absurd rfl h.1
  | cons c digits =>
      have hc : c ≠ 0x2D := by
        rintro rfl
        exact absurd (h.2 0x2D (by simp)) (by decide)
      rw [List.cons_append, parseMinus]
      rintro t ⟨⟩
      exact hc rfl

theorem parseNumber_render (n : Integer) {rest : Bytes} (h : Ends rest) :
    parseNumber strtod (n.render ++ rest) = .ok (.integer n, rest) := by
  have hInt := parseInt_append h (intPart_decimal n.val.natAbs)
  have hNumber := numberOf_render strtod n
  rw [Integer.render]
  split
  case isTrue hNeg =>
    rw [decide_eq_true hNeg] at hNumber
    simp only [List.cons_append, parseNumber, parseMinus, hInt, h.parseFrac, h.parseExp, bind,
      Except.bind, hNumber]
  case isFalse hNeg =>
    rw [decide_eq_false hNeg] at hNumber
    simp only [parseNumber, parseMinus_digits (digits_decimal _), hInt, h.parseFrac, h.parseExp,
      bind, Except.bind, hNumber]

/-! ## Values -/

/-- A byte that a value can start with. -/
def Starts (c : UInt8) : Prop :=
  c = 0x2D ∨ isDigit c = true ∨ c ∈ ascii "ntf\"\x7b["

theorem Starts.ne {c d : UInt8} (h : Starts c) (hMinus : d ≠ 0x2D := by decide)
    (hDigit : isDigit d = false := by decide) (hMark : d ∉ ascii "ntf\"\x7b[" := by decide) :
    c ≠ d := by
  rintro rfl
  obtain rfl | h | h := h
  · exact hMinus rfl
  · simp [h] at hDigit
  · exact hMark h

/-- Whitespace is not skipped where a value starts. -/
theorem Starts.skipWhitespace {c : UInt8} (h : Starts c) (s : Bytes) :
    skipWhitespace (c :: s) = c :: s := by
  have h1 := h.ne (d := 0x20)
  have h2 := h.ne (d := 0x09)
  have h3 := h.ne (d := 0x0A)
  have h4 := h.ne (d := 0x0D)
  simp [Json.skipWhitespace, h1, h2, h3, h4]

theorem Integer.starts (n : Integer) :
    ∃ c t, n.render = c :: t ∧ (c = 0x2D ∨ isDigit c = true) := by
  rw [Integer.render]
  split
  · exact ⟨_, _, rfl, .inl rfl⟩
  · obtain ⟨c, t, hct⟩ := List.exists_cons_of_ne_nil (decimal_ne_nil n.val.natAbs)
    refine ⟨c, t, hct, .inr ?_⟩
    exact (digits_decimal n.val.natAbs).2 c (by rw [hct]; exact List.mem_cons_self)

theorem Value.starts (v : Value Empty) : ∃ c t, v.render = c :: t ∧ Starts c := by
  cases v with
  | null => exact ⟨_, _, rfl, .inr (.inr (by decide))⟩
  | bool b => cases b <;> exact ⟨_, _, rfl, .inr (.inr (by decide))⟩
  | integer n =>
      obtain ⟨c, t, h, hc⟩ := n.starts
      exact ⟨c, t, h, hc.imp_right .inl⟩
  | double d => exact d.elim
  | string s => exact ⟨_, _, rfl, .inr (.inr (by decide))⟩
  | array items => exact ⟨_, _, rfl, .inr (.inr (by decide))⟩
  | object members => exact ⟨_, _, rfl, .inr (.inr (by decide))⟩

/-- No whitespace in front of the text of a value. -/
theorem skipWhitespace_render (v : Value Empty) (s : Bytes) :
    skipWhitespace (v.render ++ s) = v.render ++ s := by
  obtain ⟨c, t, hct, hc⟩ := v.starts
  rw [hct]
  exact hc.skipWhitespace (t ++ s)

theorem skipWhitespace_ends {rest : Bytes} (h : Ends rest) : skipWhitespace rest = rest := by
  obtain rfl | ⟨c, t, rfl, rfl | rfl | rfl⟩ := h <;> simp [skipWhitespace]

/-- A minus sign or a digit starts a number. -/
theorem parseValue_number {c : UInt8} (hc : c = 0x2D ∨ isDigit c = true) (fuel : Nat)
    (s : Bytes) : parseValue strtod (fuel + 1) (c :: s) = parseNumber strtod (c :: s) := by
  unfold parseValue
  split
  all_goals first
    | rfl
    | (rename_i heq
       obtain ⟨rfl, -⟩ := List.cons.inj heq
       exact absurd hc (by decide))

theorem parseValue_string (fuel : Nat) (s rest : Bytes) :
    parseValue strtod (fuel + 1) (quote s ++ rest) = .ok (.string s, rest) := by
  have hString := parseString_escape s rest
  rw [quote, List.cons_append, List.append_assoc, List.singleton_append]
  unfold parseValue
  simp only [hString, bind, Except.bind, pure, Except.pure]

theorem parseLiteral_append (v : Value Double) (letters rest : Bytes) :
    parseLiteral v letters (letters ++ rest) = .ok (v, rest) := by
  induction letters with
  | nil => rfl
  | cons c letters ih => simpa [parseLiteral] using ih

theorem length_render_pos (v : Value Empty) : 0 < v.render.length := by
  obtain ⟨c, t, hct, -⟩ := v.starts
  simp [hct]

/-- The reader's way into an array that has items. -/
theorem parseValue_array {fuel : Nat} {c : UInt8} {s rest : Bytes} {items : List (Value Double)}
    (hc : Starts c) (h : parseElements strtod fuel (c :: s) = .ok (items, rest)) :
    parseValue strtod (fuel + 1) (0x5B :: c :: s) = .ok (.array items, rest) := by
  have hNot : c ≠ 0x5D := hc.ne
  unfold parseValue
  simp only [hc.skipWhitespace]
  split
  · rename_i heq
    exact absurd (List.cons.inj heq).1 hNot
  · simp only [h, bind, Except.bind, pure, Except.pure]

/-- The reader's way into an object that has members. -/
theorem parseValue_object {fuel : Nat} {s rest : Bytes} {members : List (Bytes × Value Double)}
    (h : parseMembers strtod fuel (0x22 :: s) = .ok (members, rest)) :
    parseValue strtod (fuel + 1) (0x7B :: 0x22 :: s) = .ok (.object members, rest) := by
  unfold parseValue
  simp [skipWhitespace, h, bind, Except.bind, pure, Except.pure]

mutual

theorem parseValue_render : ∀ (v : Value Empty) (fuel : Nat) (rest : Bytes),
    2 * v.render.length ≤ fuel → Ends rest →
      parseValue strtod fuel (v.render ++ rest) = .ok (v.lift, rest)
  | v, 0, rest, hFuel, _ => by
      have := length_render_pos v
      omega
  | .null, fuel + 1, rest, _, _ => parseLiteral_append .null (ascii "ull") rest
  | .bool true, fuel + 1, rest, _, _ => parseLiteral_append (.bool true) (ascii "rue") rest
  | .bool false, fuel + 1, rest, _, _ => parseLiteral_append (.bool false) (ascii "alse") rest
  | .integer n, fuel + 1, rest, _, hEnds => by
      obtain ⟨c, t, hct, hc⟩ := n.starts
      have hNumber := parseNumber_render strtod n hEnds
      rw [hct, List.cons_append] at hNumber
      rw [Value.render, hct, List.cons_append, parseValue_number strtod hc, hNumber]
      rfl
  | .string s, fuel + 1, rest, _, _ => parseValue_string strtod fuel s rest
  | .array [], fuel + 1, rest, _, _ => by
      unfold parseValue
      rfl
  | .array (v :: items), fuel + 1, rest, hFuel, _ => by
      obtain ⟨c, t, hct, hc⟩ := v.starts
      have hItems := parseElements_render (v :: items) fuel rest
        (List.cons_ne_nil _ _) (by
          simp only [Value.render, List.length_cons, List.length_append] at hFuel
          omega)
      simp only [Value.render, Value.renderItems, hct, List.cons_append, List.append_assoc,
        List.nil_append] at hItems ⊢
      exact parseValue_array strtod hc hItems
  | .object [], fuel + 1, rest, _, _ => by
      unfold parseValue
      rfl
  | .object ((name, v) :: members), fuel + 1, rest, hFuel, _ => by
      have hMembers := parseMembers_render ((name, v) :: members) fuel rest
        (List.cons_ne_nil _ _) (by
          simp only [Value.render, List.length_cons, List.length_append] at hFuel
          omega)
      simp only [Value.render, Value.renderMembers, quote, List.cons_append, List.append_assoc,
        List.nil_append] at hMembers ⊢
      exact parseValue_object strtod hMembers

theorem parseElements_render : ∀ (items : List (Value Empty)) (fuel : Nat) (rest : Bytes),
    items ≠ [] → 2 * (Value.renderItems items).length + 1 ≤ fuel →
      parseElements strtod fuel (Value.renderItems items ++ 0x5D :: rest) =
        .ok (Value.liftItems items, rest)
  | [], _, _, h, _ => absurd rfl h
  | _ :: _, 0, _, _, hFuel => by omega
  | [v], fuel + 1, rest, _, hFuel => by
      simp only [Value.renderItems, Value.renderItemsTail, List.append_nil] at hFuel ⊢
      have hValue := parseValue_render v fuel (0x5D :: rest) (by omega)
        (.inr ⟨_, _, rfl, .inr (.inl rfl)⟩)
      unfold parseElements
      simp [hValue, bind, Except.bind, pure, Except.pure, skipWhitespace, Value.liftItems]
  | v :: w :: items, fuel + 1, rest, _, hFuel => by
      have hTail : Value.renderItems (v :: w :: items) =
          v.render ++ 0x2C :: Value.renderItems (w :: items) := rfl
      rw [hTail, List.length_append, List.length_cons] at hFuel
      have hPos := length_render_pos v
      have hValue := parseValue_render v fuel
        (0x2C :: (Value.renderItems (w :: items) ++ 0x5D :: rest)) (by omega)
        (.inr ⟨_, _, rfl, .inl rfl⟩)
      have hItems := parseElements_render (w :: items) fuel rest
        (List.cons_ne_nil _ _) (by omega)
      have hSkip : skipWhitespace (Value.renderItems (w :: items) ++ 0x5D :: rest) =
          Value.renderItems (w :: items) ++ 0x5D :: rest := by
        rw [Value.renderItems, List.append_assoc]
        exact skipWhitespace_render w _
      rw [hTail, List.append_assoc, List.cons_append]
      unfold parseElements
      simp only [hValue, bind, Except.bind, skipWhitespace_ends (.inr ⟨_, _, rfl, .inl rfl⟩),
        hSkip, hItems, pure, Except.pure, Value.liftItems]

theorem parseMembers_render : ∀ (members : List (Bytes × Value Empty)) (fuel : Nat)
    (rest : Bytes), members ≠ [] → 2 * (Value.renderMembers members).length + 1 ≤ fuel →
      parseMembers strtod fuel (Value.renderMembers members ++ 0x7D :: rest) =
        .ok (Value.liftMembers members, rest)
  | [], _, _, h, _ => absurd rfl h
  | _ :: _, 0, _, _, hFuel => by omega
  | [(name, v)], fuel + 1, rest, _, hFuel => by
      simp only [Value.renderMembers, Value.renderMembersTail, List.append_nil, quote,
        List.length_append, List.length_cons] at hFuel
      have hName := parseString_escape name (0x3A :: (v.render ++ 0x7D :: rest))
      have hValue := parseValue_render v fuel (0x7D :: rest) (by omega)
        (.inr ⟨_, _, rfl, .inr (.inr rfl)⟩)
      have hText : Value.renderMembers [(name, v)] ++ 0x7D :: rest =
          0x22 :: (escape name ++ 0x22 :: 0x3A :: (v.render ++ 0x7D :: rest)) := by
        simp [Value.renderMembers, Value.renderMembersTail, quote]
      have hColon : skipWhitespace (0x3A :: (v.render ++ 0x7D :: rest)) =
          0x3A :: (v.render ++ 0x7D :: rest) := by
        simp [skipWhitespace]
      rw [hText]
      unfold parseMembers
      simp only [hName, bind, Except.bind, hColon, skipWhitespace_render, hValue,
        skipWhitespace_ends (.inr ⟨_, _, rfl, .inr (.inr rfl)⟩), pure, Except.pure,
        Value.liftMembers]
  | (name, v) :: (name', w) :: members, fuel + 1, rest, _, hFuel => by
      have hTail : Value.renderMembers ((name, v) :: (name', w) :: members) =
          0x22 :: (escape name ++ 0x22 :: 0x3A ::
            (v.render ++ 0x2C :: Value.renderMembers ((name', w) :: members))) := by
        simp [Value.renderMembers, Value.renderMembersTail, quote]
      rw [hTail] at hFuel
      simp only [List.length_append, List.length_cons] at hFuel
      have hPos := length_render_pos v
      have hName := parseString_escape name (0x3A :: (v.render ++ 0x2C ::
        (Value.renderMembers ((name', w) :: members) ++ 0x7D :: rest)))
      have hValue := parseValue_render v fuel
        (0x2C :: (Value.renderMembers ((name', w) :: members) ++ 0x7D :: rest)) (by omega)
        (.inr ⟨_, _, rfl, .inl rfl⟩)
      have hMembers := parseMembers_render ((name', w) :: members) fuel rest
        (List.cons_ne_nil _ _) (by omega)
      have hSkip : skipWhitespace (Value.renderMembers ((name', w) :: members) ++ 0x7D :: rest) =
          Value.renderMembers ((name', w) :: members) ++ 0x7D :: rest := by
        simp [Value.renderMembers, quote, skipWhitespace]
      have hColon (s : Bytes) : skipWhitespace (0x3A :: s) = 0x3A :: s := by
        simp [skipWhitespace]
      rw [hTail]
      simp only [List.cons_append, List.append_assoc]
      unfold parseMembers
      simp only [hName, bind, Except.bind, hColon, skipWhitespace_render, hValue,
        skipWhitespace_ends (.inr ⟨_, _, rfl, .inl rfl⟩), hSkip, hMembers, pure, Except.pure,
        Value.liftMembers]

end

/-- The reader inverts the writer. -/
theorem parse_render (v : Value Empty) : parse strtod v.render = .ok v.lift := by
  have hValue := parseValue_render strtod v (2 * v.render.length + 2) []
    (by omega) (.inl rfl)
  rw [List.append_nil] at hValue
  rw [parse, cstr_eq_self (zero_notMem_render v), parseDocument]
  have hSkip := skipWhitespace_render v []
  rw [List.append_nil] at hSkip
  rw [hSkip]
  obtain ⟨c, t, hct, -⟩ := v.starts
  rw [hct] at hValue ⊢
  simp only [hValue, bind, Except.bind, skipWhitespace]

end Kexplorer.Json

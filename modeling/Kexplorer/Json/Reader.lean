import Kexplorer.Json.Grammar

/-!
# The JSON reader

rapidjson's `Document::ParseInsitu` with the default flags: the recursive
descent of `GenericReader`, building the value that its events describe.  The
input is the text before the terminating NUL, so the end of the list is what the
source sees as `'\0'`.

Decoded strings overwrite the text behind the read position only, which the
reader never looks at again; the model reads the text as it was.

An error carries its code and what was left of the text at the position that
`GetErrorOffset` reports.  Numbers that are not kept as integers are handed to
`strtod`, a parameter that stands for the floating-point arithmetic of
`ParseNumber`: it returns nothing where the source reports that the number is
too big.

The recursion is bounded by fuel; `parse` gives it enough, so that
`ParseErrorCode.termination` never comes out (`parse_ne_termination`).
-/

namespace Kexplorer.Json

/-- The `ParseErrorCode`s of this reader. -/
inductive ParseErrorCode
  | documentEmpty
  | documentRootNotSingular
  | valueInvalid
  | objectMissName
  | objectMissColon
  | objectMissCommaOrCurlyBracket
  | arrayMissCommaOrSquareBracket
  | stringUnicodeEscapeInvalidHex
  | stringUnicodeSurrogateInvalid
  | stringEscapeInvalid
  | stringMissQuotationMark
  | stringInvalidEncoding
  | numberTooBig
  | numberMissFraction
  | numberMissExponent
  | termination
  deriving DecidableEq, Repr

/-- `GetParseError_En`. -/
def ParseErrorCode.text : ParseErrorCode → Bytes
  | .documentEmpty => ascii "The document is empty."
  | .documentRootNotSingular =>
      ascii "The document root must not be followed by other values."
  | .valueInvalid => ascii "Invalid value."
  | .objectMissName => ascii "Missing a name for object member."
  | .objectMissColon => ascii "Missing a colon after a name of object member."
  | .objectMissCommaOrCurlyBracket =>
      ascii "Missing a comma or '\x7d' after an object member."
  | .arrayMissCommaOrSquareBracket => ascii "Missing a comma or ']' after an array element."
  | .stringUnicodeEscapeInvalidHex => ascii "Incorrect hex digit after \\u escape in string."
  | .stringUnicodeSurrogateInvalid => ascii "The surrogate pair in string is invalid."
  | .stringEscapeInvalid => ascii "Invalid escape character in string."
  | .stringMissQuotationMark => ascii "Missing a closing quotation mark in string."
  | .stringInvalidEncoding => ascii "Invalid encoding in string."
  | .numberTooBig => ascii "Number too big to be stored in double."
  | .numberMissFraction => ascii "Miss fraction part in number."
  | .numberMissExponent => ascii "Miss exponent in number."
  | .termination => ascii "Terminate parsing due to Handler error."

/-- An error, with the rest of the text at its position. -/
abbrev ParseError := ParseErrorCode × Bytes

/-- `SkipWhitespace`. -/
def skipWhitespace : Bytes → Bytes
  | [] => []
  | c :: s => if c = 0x20 ∨ c = 0x09 ∨ c = 0x0A ∨ c = 0x0D then skipWhitespace s else c :: s

/-! ## Strings -/

/-- The reader's table `escape`. -/
def unescapeByte (e : UInt8) : Option UInt8 :=
  if e = 0x22 then some 0x22
  else if e = 0x2F then some 0x2F
  else if e = 0x5C then some 0x5C
  else if e = 0x62 then some 0x08
  else if e = 0x66 then some 0x0C
  else if e = 0x6E then some 0x0A
  else if e = 0x72 then some 0x0D
  else if e = 0x74 then some 0x09
  else none

/-- The value of a hexadecimal digit. -/
def hexValue (c : UInt8) : Option Nat :=
  if 0x30 ≤ c ∧ c ≤ 0x39 then some (c.toNat - 0x30)
  else if 0x41 ≤ c ∧ c ≤ 0x46 then some (c.toNat - 0x37)
  else if 0x61 ≤ c ∧ c ≤ 0x66 then some (c.toNat - 0x57)
  else none

/-- `ParseHex4`. -/
def parseHex4 (a b c d : UInt8) : Option Nat := do
  let a ← hexValue a
  let b ← hexValue b
  let c ← hexValue c
  let d ← hexValue d
  return ((a * 16 + b) * 16 + c) * 16 + d

/-- `UTF8::Encode`. -/
def encodeUtf8 (codepoint : Nat) : Bytes :=
  if codepoint ≤ 0x7F then [codepoint.toUInt8]
  else if codepoint ≤ 0x7FF then
    [(0xC0 + codepoint / 64).toUInt8, (0x80 + codepoint % 64).toUInt8]
  else if codepoint ≤ 0xFFFF then
    [(0xE0 + codepoint / 4096).toUInt8, (0x80 + codepoint / 64 % 64).toUInt8,
      (0x80 + codepoint % 64).toUInt8]
  else
    [(0xF0 + codepoint / 262144).toUInt8, (0x80 + codepoint / 4096 % 64).toUInt8,
      (0x80 + codepoint / 64 % 64).toUInt8, (0x80 + codepoint % 64).toUInt8]

/-- The result with some bytes in front. -/
def prepend (s : Bytes) : Except ParseError (Bytes × Bytes) → Except ParseError (Bytes × Bytes)
  | .ok (t, rest) => .ok (s ++ t, rest)
  | .error e => .error e

/-- `ParseStringToStream`, behind the opening quotation mark. -/
def parseString : Bytes → Except ParseError (Bytes × Bytes)
  | [] => .error (.stringMissQuotationMark, [])
  | c :: s =>
      if c = 0x5C then
        -- an invalid escape is reported at its backslash
        match s with
        | [] => .error (.stringEscapeInvalid, c :: s)
        | e :: rest =>
            match unescapeByte e with
            | some b => prepend [b] (parseString rest)
            | none =>
                if e = 0x75 then
                  match rest with
                  | h₁ :: h₂ :: h₃ :: h₄ :: rest =>
                      match parseHex4 h₁ h₂ h₃ h₄ with
                      | none => .error (.stringUnicodeEscapeInvalidHex, c :: s)
                      | some codepoint =>
                          if 0xD800 ≤ codepoint ∧ codepoint ≤ 0xDFFF then
                            if codepoint ≤ 0xDBFF then
                              match rest with
                              | 0x5C :: 0x75 :: rest =>
                                  match rest with
                                  | l₁ :: l₂ :: l₃ :: l₄ :: rest =>
                                      match parseHex4 l₁ l₂ l₃ l₄ with
                                      | none => .error (.stringUnicodeEscapeInvalidHex, c :: s)
                                      | some low =>
                                          if low < 0xDC00 ∨ low > 0xDFFF then
                                            .error (.stringUnicodeSurrogateInvalid, c :: s)
                                          else
                                            prepend
                                              (encodeUtf8 ((codepoint - 0xD800) * 1024 +
                                                (low - 0xDC00) + 0x10000))
                                              (parseString rest)
                                  | _ => .error (.stringUnicodeEscapeInvalidHex, c :: s)
                              | _ => .error (.stringUnicodeSurrogateInvalid, c :: s)
                            else
                              .error (.stringUnicodeSurrogateInvalid, c :: s)
                          else
                            prepend (encodeUtf8 codepoint) (parseString rest)
                  | _ => .error (.stringUnicodeEscapeInvalidHex, c :: s)
                else
                  .error (.stringEscapeInvalid, c :: s)
      else if c = 0x22 then .ok ([], s)
      else if c < 0x20 then .error (.stringInvalidEncoding, c :: s)
      else prepend [c] (parseString s)

/-! ## Numbers -/

/-- The digits at the front of a text. -/
def takeDigits (s : Bytes) : Bytes := s.takeWhile isDigit

/-- The number that some digits denote. -/
def ofDigits (digits : Bytes) : Nat := digits.foldl (fun n c => n * 10 + (c.toNat - 0x30)) 0

/-- The digits that a number needs at this point, or an error. -/
def needDigits (code : ParseErrorCode) (s : Bytes) : Except ParseError (Bytes × Bytes) :=
  match takeDigits s with
  | [] => .error (code, s)
  | digits => .ok (digits, s.drop digits.length)

/-- Whether there is a minus sign, and the text behind it. -/
def parseMinus : Bytes → Bool × Bytes
  | 0x2D :: rest => (true, rest)
  | s => (false, s)

/-- The digits before the point: a zero stands alone. -/
def parseInt (s : Bytes) : Except ParseError (Bytes × Bytes) :=
  match s with
  | 0x30 :: rest => .ok ([0x30], rest)
  | _ => needDigits .valueInvalid s

/-- The fraction, if there is one. -/
def parseFrac (s : Bytes) : Except ParseError (Bytes × Bytes) :=
  match s with
  | 0x2E :: rest => prepend [0x2E] (needDigits .numberMissFraction rest)
  | _ => .ok ([], s)

/-- The exponent, if there is one. -/
def parseExp (s : Bytes) : Except ParseError (Bytes × Bytes) :=
  match s with
  | c :: rest =>
      if c = 0x65 ∨ c = 0x45 then
        match rest with
        | 0x2B :: rest => prepend [c, 0x2B] (needDigits .numberMissExponent rest)
        | 0x2D :: rest => prepend [c, 0x2D] (needDigits .numberMissExponent rest)
        | _ => prepend [c] (needDigits .numberMissExponent rest)
      else .ok ([], s)
  | [] => .ok ([], [])

section

variable (strtod : Bytes → Option Double)

/-- The event for a number: without fraction and exponent it is an integer if it
fits, and otherwise the literal goes to `strtod`. -/
def numberOf (minus : Bool) (int frac exp : Bytes) : Option (Value Double) :=
  let n : Int := if minus then -(ofDigits int : Int) else ofDigits int
  if h : frac = [] ∧ exp = [] ∧ -2 ^ 63 ≤ n ∧ n < 2 ^ 64 then
    some (.integer ⟨n, h.2.2⟩)
  else
    (strtod ((if minus then [0x2D] else []) ++ int ++ frac ++ exp)).map .double

/-- `ParseNumber`. -/
def parseNumber (s : Bytes) : Except ParseError (Value Double × Bytes) := do
  let (minus, rest) := parseMinus s
  let (int, rest) ← parseInt rest
  let (frac, rest) ← parseFrac rest
  let (exp, rest) ← parseExp rest
  match numberOf strtod minus int frac exp with
  | some v => .ok (v, rest)
  | none => .error (.numberTooBig, s)

/-! ## Values -/

/-- `ParseNull`, `ParseTrue` and `ParseFalse`: the letters behind the first one.
The error is reported at the first letter that is wrong. -/
def parseLiteral (v : Value Double) : Bytes → Bytes → Except ParseError (Value Double × Bytes)
  | [], s => .ok (v, s)
  | c :: letters, d :: s =>
      if d = c then parseLiteral v letters s else .error (.valueInvalid, d :: s)
  | _ :: _, [] => .error (.valueInvalid, [])

mutual

/-- `ParseValue`. -/
def parseValue : Nat → Bytes → Except ParseError (Value Double × Bytes)
  | 0, s => .error (.termination, s)
  | fuel + 1, s =>
      match s with
      | 0x6E :: rest => parseLiteral .null (ascii "ull") rest
      | 0x74 :: rest => parseLiteral (.bool true) (ascii "rue") rest
      | 0x66 :: rest => parseLiteral (.bool false) (ascii "alse") rest
      | 0x22 :: rest => do
          let (t, rest) ← parseString rest
          return (.string t, rest)
      | 0x7B :: rest =>
          match skipWhitespace rest with
          | 0x7D :: rest => .ok (.object [], rest)
          | rest => do
              let (members, rest) ← parseMembers fuel rest
              return (.object members, rest)
      | 0x5B :: rest =>
          match skipWhitespace rest with
          | 0x5D :: rest => .ok (.array [], rest)
          | rest => do
              let (items, rest) ← parseElements fuel rest
              return (.array items, rest)
      | _ => parseNumber strtod s

/-- The loop of `ParseArray`. -/
def parseElements : Nat → Bytes → Except ParseError (List (Value Double) × Bytes)
  | 0, s => .error (.termination, s)
  | fuel + 1, s => do
      let (v, rest) ← parseValue fuel s
      match skipWhitespace rest with
      | 0x2C :: rest => do
          let (items, rest) ← parseElements fuel (skipWhitespace rest)
          return (v :: items, rest)
      | 0x5D :: rest => return ([v], rest)
      | rest => .error (.arrayMissCommaOrSquareBracket, rest)

/-- The loop of `ParseObject`. -/
def parseMembers : Nat → Bytes → Except ParseError (List (Bytes × Value Double) × Bytes)
  | 0, s => .error (.termination, s)
  | fuel + 1, s =>
      match s with
      | 0x22 :: rest => do
          let (name, rest) ← parseString rest
          match skipWhitespace rest with
          | 0x3A :: rest => do
              let (v, rest) ← parseValue fuel (skipWhitespace rest)
              match skipWhitespace rest with
              | 0x2C :: rest => do
                  let (members, rest) ← parseMembers fuel (skipWhitespace rest)
                  return ((name, v) :: members, rest)
              | 0x7D :: rest => return ([(name, v)], rest)
              | rest => .error (.objectMissCommaOrCurlyBracket, rest)
          | rest => .error (.objectMissColon, rest)
      | _ => .error (.objectMissName, s)

end

/-- `Parse`: one value, with whitespace around it. -/
def parseDocument (fuel : Nat) (s : Bytes) : Except ParseError (Value Double) :=
  match skipWhitespace s with
  | [] => .error (.documentEmpty, [])
  | s => do
      let (v, rest) ← parseValue strtod fuel s
      match skipWhitespace rest with
      | [] => .ok v
      | rest => .error (.documentRootNotSingular, rest)

/-- `Document::ParseInsitu` of the C string at `json`: the value, or the error
code and its offset. -/
def parse (json : Bytes) : Except (ParseErrorCode × Nat) (Value Double) :=
  match parseDocument strtod (2 * (cstr json).length + 2) (cstr json) with
  | .ok v => .ok v
  | .error (code, rest) => .error (code, (cstr json).length - rest.length)

end

/-! ## Fuel -/

/-- A result that leaves at most `n` bytes of the text, or an error other than
that the fuel ran out. -/
def Advances {α : Type} (n : Nat) : Except ParseError (α × Bytes) → Prop
  | .ok (_, rest) => rest.length ≤ n
  | .error (code, _) => code ≠ .termination

theorem Advances.mono {α : Type} {n m : Nat} {r : Except ParseError (α × Bytes)}
    (h : Advances n r) (hLe : n ≤ m) : Advances m r := by
  cases r with
  | error e => exact h
  | ok p => exact Nat.le_trans h hLe

theorem Advances.bind {α β : Type} {n m : Nat} {r : Except ParseError (α × Bytes)}
    {f : α × Bytes → Except ParseError (β × Bytes)} (h : Advances n r)
    (hf : ∀ a rest, rest.length ≤ n → Advances m (f (a, rest))) : Advances m (r >>= f) := by
  cases r with
  | error e => exact h
  | ok p => exact hf p.1 p.2 h

theorem Advances.prepend {n : Nat} {r : Except ParseError (Bytes × Bytes)} (h : Advances n r)
    (s : Bytes) : Advances n (prepend s r) := by
  cases r with
  | error e => exact h
  | ok p => exact h

theorem length_skipWhitespace (s : Bytes) : (skipWhitespace s).length ≤ s.length := by
  induction s with
  | nil => exact Nat.le_refl 0
  | cons c s ih =>
      rw [skipWhitespace]
      split
      · exact Nat.le_succ_of_le ih
      · exact Nat.le_refl _

theorem parseString_advances (s : Bytes) : Advances s.length (parseString s) := by
  fun_induction parseString s
  all_goals first
    | exact Nat.le_succ _
    | exact ParseErrorCode.noConfusion
    | rename_i ih
      exact (ih.mono (by simp only [List.length_cons]; omega)).prepend _

theorem needDigits_advances {code : ParseErrorCode} (hCode : code ≠ .termination) {n : Nat}
    {s : Bytes} (hLen : s.length ≤ n + 1) : Advances n (needDigits code s) := by
  rw [needDigits]
  split
  · exact hCode
  · rename_i digits hDigits
    have hPos : 0 < (takeDigits s).length := List.length_pos_of_ne_nil (by simpa using hDigits)
    show (s.drop _).length ≤ n
    rw [List.length_drop]
    omega

theorem parseInt_advances {n : Nat} {s : Bytes} (hLen : s.length ≤ n + 1) :
    Advances n (parseInt s) := by
  unfold parseInt
  split
  · exact Nat.le_of_succ_le_succ hLen
  · exact needDigits_advances (by decide) hLen

theorem parseFrac_advances {n : Nat} {s : Bytes} (hLen : s.length ≤ n) :
    Advances n (parseFrac s) := by
  unfold parseFrac
  split
  · simp only [List.length_cons] at hLen
    exact (needDigits_advances (by decide) (by omega)).prepend _
  · exact hLen

theorem parseExp_advances {n : Nat} {s : Bytes} (hLen : s.length ≤ n) :
    Advances n (parseExp s) := by
  unfold parseExp
  split
  · simp only [List.length_cons] at hLen
    split
    · split
      · simp only [List.length_cons] at hLen
        exact (needDigits_advances (by decide) (by omega)).prepend _
      · simp only [List.length_cons] at hLen
        exact (needDigits_advances (by decide) (by omega)).prepend _
      · exact (needDigits_advances (by decide) (by omega)).prepend _
    · exact hLen
  · exact Nat.zero_le n

variable (strtod : Bytes → Option Double)

theorem parseNumber_advances {n : Nat} {s : Bytes} (hLen : s.length ≤ n + 1) :
    Advances n (parseNumber strtod s) := by
  have hMinus : (parseMinus s).2.length ≤ n + 1 := by
    unfold parseMinus
    split
    · exact Nat.le_of_succ_le hLen
    · exact hLen
  refine Advances.bind (parseInt_advances hMinus) fun int rest hInt => ?_
  refine Advances.bind (parseFrac_advances hInt) fun frac rest hFrac => ?_
  refine Advances.bind (parseExp_advances hFrac) fun exp rest hExp => ?_
  dsimp only
  split
  · exact hExp
  · exact ParseErrorCode.noConfusion

theorem parseLiteral_advances (v : Value Double) (letters s : Bytes) :
    Advances s.length (parseLiteral v letters s) := by
  induction letters, s using parseLiteral.induct with
  | case1 s => exact Nat.le_refl _
  | case2 c letters s ih =>
      rw [parseLiteral, if_pos rfl]
      exact ih.mono (Nat.le_succ _)
  | case3 c letters d s h =>
      rw [parseLiteral, if_neg h]
      exact ParseErrorCode.noConfusion
  | case4 => exact ParseErrorCode.noConfusion

/-- With enough fuel for the text, none of the three runs out of it. -/
theorem advances_of_fuel : ∀ (fuel : Nat) (s : Bytes),
    (2 * s.length + 1 ≤ fuel → Advances (s.length - 1) (parseValue strtod fuel s)) ∧
    (2 * s.length + 2 ≤ fuel → Advances (s.length - 1) (parseElements strtod fuel s)) ∧
    (2 * s.length + 2 ≤ fuel → Advances (s.length - 1) (parseMembers strtod fuel s))
  | 0, s => by omega
  | fuel + 1, s => by
      refine ⟨fun hFuel => ?_, fun hFuel => ?_, fun hFuel => ?_⟩
      · unfold parseValue
        split
        · exact parseLiteral_advances _ _ _
        · exact parseLiteral_advances _ _ _
        · exact parseLiteral_advances _ _ _
        · exact (parseString_advances _).bind fun t rest h => h
        · rename_i rest
          have hSkip := length_skipWhitespace rest
          simp only [List.length_cons] at hFuel
          split
          · rename_i hBracket
            rw [hBracket] at hSkip
            exact Nat.le_of_succ_le hSkip
          · have hMembers := (advances_of_fuel fuel (skipWhitespace rest)).2.2 (by omega)
            exact (hMembers.mono (Nat.le_trans (Nat.sub_le _ _) hSkip)).bind fun members rest h => h
        · rename_i rest
          have hSkip := length_skipWhitespace rest
          simp only [List.length_cons] at hFuel
          split
          · rename_i hBracket
            rw [hBracket] at hSkip
            exact Nat.le_of_succ_le hSkip
          · have hItems := (advances_of_fuel fuel (skipWhitespace rest)).2.1 (by omega)
            exact (hItems.mono (Nat.le_trans (Nat.sub_le _ _) hSkip)).bind fun items rest h => h
        · exact parseNumber_advances strtod (by omega)
      · unfold parseElements
        refine ((advances_of_fuel fuel s).1 (by omega)).bind fun v rest hRest => ?_
        have hSkip := length_skipWhitespace rest
        dsimp only
        split
        · rename_i next hComma
          rw [hComma, List.length_cons] at hSkip
          have hNext := length_skipWhitespace next
          have hItems := (advances_of_fuel fuel (skipWhitespace next)).2.1 (by omega)
          exact (hItems.mono (by omega)).bind fun items rest h => h
        · rename_i hBracket
          rw [hBracket, List.length_cons] at hSkip
          show _ ≤ _
          omega
        · exact ParseErrorCode.noConfusion
      · unfold parseMembers
        split
        · rename_i text
          simp only [List.length_cons] at hFuel ⊢
          refine (parseString_advances text).bind fun name rest hName => ?_
          have hSkip := length_skipWhitespace rest
          dsimp only
          split
          · rename_i value hColon
            rw [hColon, List.length_cons] at hSkip
            have hValue := length_skipWhitespace value
            refine ((advances_of_fuel fuel (skipWhitespace value)).1 (by omega)).bind
              fun v rest hRest => ?_
            have hSkip := length_skipWhitespace rest
            dsimp only
            split
            · rename_i next hComma
              rw [hComma, List.length_cons] at hSkip
              have hNext := length_skipWhitespace next
              have hMembers := (advances_of_fuel fuel (skipWhitespace next)).2.2 (by omega)
              exact (hMembers.mono (by omega)).bind fun members rest h => h
            · rename_i hBrace
              rw [hBrace, List.length_cons] at hSkip
              show _ ≤ _
              omega
            · exact ParseErrorCode.noConfusion
          · exact ParseErrorCode.noConfusion
        · exact ParseErrorCode.noConfusion

/-- The reader never runs out of fuel. -/
theorem parse_ne_termination (json : Bytes) (offset : Nat) :
    parse strtod json ≠ .error (.termination, offset) := by
  unfold parse parseDocument
  have hSkip := length_skipWhitespace (cstr json)
  generalize skipWhitespace (cstr json) = s at hSkip
  have hValue := (advances_of_fuel strtod (2 * (cstr json).length + 2) s).1 (by omega)
  cases s with
  | nil => simp
  | cons c s =>
      dsimp only
      cases hParse : parseValue strtod (2 * (cstr json).length + 2) (c :: s) with
      | error e =>
          rw [hParse] at hValue
          obtain ⟨code, rest⟩ := e
          rintro ⟨⟩
          exact hValue rfl
      | ok p =>
          simp only [bind, Except.bind]
          split
          · simp
          · rename_i h
            split at h <;> cases h
            simp

end Kexplorer.Json

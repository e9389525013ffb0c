import Kexplorer.Json.Grammar
import Mathlib.Tactic.SplitIfs

/-!
# The JSON writer

rapidjson's `Writer` over a `StringBuffer`: a text that only grows, and a stack
of levels that counts the values of each open container.  Every call first puts
the comma or colon that belongs before the value (`writePrefix`) and checks,
with `RAPIDJSON_ASSERT`, that a value of its type may stand there; a failed
assertion is `none`.  The writer does not check more than that: a name without
a value goes unnoticed until the object ends, and if the next value is a string
it goes unnoticed altogether.

`Reached` relates a writer to the unfinished document it has written, and
`Writer.Reached.render` concludes that whenever the assertions hold and all
containers are closed, the text is that of some value.  `accept` is the sequence
of calls for a value, and `accept_spec` says that the writer takes it wherever a
value may stand.

Lengths are natural numbers, where rapidjson's `SizeType` has 32 bits.
-/

namespace Kexplorer.Json

/-- `rapidjson::Type`. -/
inductive JsonType
  | null
  | false
  | true
  | object
  | array
  | string
  | number
  deriving DecidableEq

/-- `Writer::Level`. -/
structure Level where
  inArray : Bool
  valueCount : Nat
  deriving DecidableEq

/-- `os_`, `level_stack_` with the innermost level first, and `hasRoot_`. -/
structure Writer where
  os : Bytes
  levelStack : List Level
  hasRoot : Bool
  deriving DecidableEq

namespace Writer

/-- A writer on an empty `StringBuffer`. -/
def new : Writer := ⟨[], [], false⟩

/-- `os_->Put`, for several bytes. -/
def put (w : Writer) (s : Bytes) : Writer := { w with os := w.os ++ s }

/-- What stands between the values of a level. -/
def separator (level : Level) : Bytes :=
  if 0 < level.valueCount then
    if level.inArray then [0x2C]
    else if level.valueCount % 2 = 0 then [0x2C] else [0x3A]
  else []

/-- `Prefix`. -/
def writePrefix (w : Writer) (type : JsonType) : Option Writer :=
  match w.levelStack with
  | level :: outer =>
      -- in an object every other value is a name
      if level.inArray = false ∧ level.valueCount % 2 = 0 ∧ type ≠ .string then none
      else some
        { w with
          os := w.os ++ separator level
          levelStack := { level with valueCount := level.valueCount + 1 } :: outer }
  | [] => if w.hasRoot then none else some { w with hasRoot := true }

/-- A value that is written at once. -/
def scalar (w : Writer) (type : JsonType) (text : Bytes) : Option Writer :=
  (w.writePrefix type).map (·.put text)

def null (w : Writer) : Option Writer := w.scalar .null (ascii "null")

def bool (w : Writer) (b : Bool) : Option Writer :=
  if b then w.scalar .true (ascii "true") else w.scalar .false (ascii "false")

/-- `Int`, `Uint`, `Int64` and `Uint64`, which differ in the type of the number
they are given. -/
def integer (w : Writer) (n : Integer) : Option Writer := w.scalar .number n.render

def string (w : Writer) (s : Bytes) : Option Writer := w.scalar .string (quote s)

def key (w : Writer) (s : Bytes) : Option Writer := w.string s

/-- Open a container: `StartObject` and `StartArray`. -/
def start (w : Writer) (type : JsonType) (inArray : Bool) (bracket : UInt8) : Option Writer :=
  (w.writePrefix type).map fun w =>
    { w with os := w.os ++ [bracket], levelStack := ⟨inArray, 0⟩ :: w.levelStack }

def startObject (w : Writer) : Option Writer := w.start .object Bool.false 0x7B

def startArray (w : Writer) : Option Writer := w.start .array Bool.true 0x5B

/-- `EndObject`: there must be an open object without a dangling name. -/
def endObject (w : Writer) : Option Writer :=
  match w.levelStack with
  | ⟨Bool.false, valueCount⟩ :: outer =>
      if valueCount % 2 = 0 then some { w with os := w.os ++ [0x7D], levelStack := outer } else none
  | _ => none

def endArray (w : Writer) : Option Writer :=
  match w.levelStack with
  | ⟨Bool.true, _⟩ :: outer => some { w with os := w.os ++ [0x5D], levelStack := outer }
  | _ => none

/-- `IsComplete`. -/
def IsComplete (w : Writer) : Prop := w.hasRoot = Bool.true ∧ w.levelStack = []

/-- The C string that `StringBuffer::GetString` returns. -/
def getString (w : Writer) : Bytes := cstr w.os

end Writer

/-! ## Unfinished documents -/

/-- A container that is still open: its finished values and, in an object, the
name that waits for its value. -/
inductive Frame
  | array (items : List (Value Empty))
  | object (members : List (Bytes × Value Empty)) (name : Option Bytes)

namespace Frame

/-- The counter of the level. -/
def count : Frame → Nat
  | .array items => items.length
  | .object members none => 2 * members.length
  | .object members (some _) => 2 * members.length + 1

def inArray : Frame → Bool
  | .array _ => true
  | .object _ _ => false

/-- The writer's level for a frame, `extra` values ahead of it. -/
def level (f : Frame) (extra : Nat) : Level := ⟨f.inArray, f.count + extra⟩

/-- What was written for a frame. -/
def text : Frame → Bytes
  | .array items => 0x5B :: Value.renderItems items
  | .object members none => 0x7B :: Value.renderMembers members
  | .object [] (some name) => 0x7B :: quote name
  | .object (m :: members) (some name) =>
      0x7B :: (Value.renderMembers (m :: members) ++ 0x2C :: quote name)

/-- A frame whose next value need not be a string. -/
def Expects : Frame → Prop
  | .array _ => True
  | .object _ name => name.isSome

/-- A frame with one more value. -/
def add : Frame → Value Empty → Frame
  | .array items, v => .array (items ++ [v])
  | .object members (some name), v => .object (members ++ [(name, v)]) none
  | .object members none, .string name => .object members (some name)
  | .object members none, _ => .object members none

/-- The value of a finished frame. -/
def value : Frame → Value Empty
  | .array items => .array items
  | .object members _ => .object members

theorem count_add {f : Frame} {v : Value Empty} (h : f.Expects ∨ ∃ s, v = .string s) :
    (f.add v).count = f.count + 1 := by
  rcases f with items | ⟨members, name | name⟩
  · simp [add, count]
  · obtain h | ⟨s, rfl⟩ := h
    · simp [Expects] at h
    · simp [add, count]
  · simp [add, count]
    omega

theorem level_add {f : Frame} {v : Value Empty} (h : f.Expects ∨ ∃ s, v = .string s) :
    (f.add v).level 0 = f.level 1 := by
  have hArray : (f.add v).inArray = f.inArray := by
    rcases f with _ | ⟨_, _ | _⟩ <;> cases v <;> rfl
  rw [level, level, count_add h, hArray]

/-- One more value goes behind the separator. -/
theorem text_add {f : Frame} {v : Value Empty} (h : f.Expects ∨ ∃ s, v = .string s) :
    (f.add v).text = f.text ++ Writer.separator (f.level 0) ++ v.render := by
  rcases f with items | ⟨members, name | name⟩
  · cases items with
    | nil =>
        simp [add, text, level, count, inArray, Writer.separator, Value.renderItems,
          Value.renderItemsTail]
    | cons w items =>
        simp [add, text, level, count, inArray, Writer.separator, Value.renderItems,
          Value.renderItemsTail_append, Value.renderItemsTail]
  · obtain h | ⟨s, rfl⟩ := h
    · simp [Expects] at h
    · cases members with
      | nil =>
          simp [add, text, level, count, inArray, Writer.separator, Value.render,
            Value.renderMembers]
      | cons m members =>
          simp [add, text, level, count, inArray, Writer.separator, Value.render]
  · have hOdd : (2 * members.length + 1) % 2 = 1 := by omega
    cases members with
    | nil =>
        simp [add, text, level, count, inArray, Writer.separator, Value.renderMembers,
          Value.renderMembersTail]
    | cons m members =>
        simp only [add, text, level, count, inArray, Writer.separator, hOdd]
        simp [Value.renderMembers, Value.renderMembersTail_append, Value.renderMembersTail]

end Frame

namespace Writer

/-- What was written when a value has been started in each of the frames. -/
def openText : List Frame → Bytes
  | [] => []
  | f :: outer => openText outer ++ f.text ++ separator (f.level 0)

/-- The writer that is about to write a value into the innermost frame. -/
def ready (frames : List Frame) : Writer :=
  ⟨openText frames, frames.map (·.level 1), Bool.true⟩

/-- The writers that calls with holding assertions lead to. -/
inductive Reached : Writer → Prop
  | new : Reached new
  | root (v : Value Empty) : Reached ((ready []).put v.render)
  | inside (f : Frame) (outer : List Frame) : (∀ p ∈ outer, p.Expects) →
      Reached ⟨openText outer ++ f.text, f.level 0 :: outer.map (·.level 1), Bool.true⟩

/-- A value may be written into the innermost of some frames. -/
def Accepts (v : Value Empty) : List Frame → Prop
  | [] => True
  | f :: outer => (f.Expects ∨ ∃ s, v = .string s) ∧ ∀ p ∈ outer, p.Expects

theorem Reached.put_value {frames : List Frame} {v : Value Empty} (h : Accepts v frames) :
    Reached ((ready frames).put v.render) := by
  cases frames with
  | nil => exact .root v
  | cons f outer =>
      obtain ⟨hAdd, hOuter⟩ := h
      have hInside := Reached.inside (f.add v) outer hOuter
      rw [Frame.text_add hAdd, Frame.level_add hAdd] at hInside
      simpa [ready, put, openText, List.append_assoc] using hInside

/-- What `writePrefix` leaves, and what it has checked. -/
theorem Reached.writePrefix {w w' : Writer} {type : JsonType} (hw : Reached w)
    (h : w.writePrefix type = some w') :
    ∃ frames, w' = ready frames ∧
      ∀ f outer, frames = f :: outer →
        (f.Expects ∨ type = .string) ∧ ∀ p ∈ outer, p.Expects := by
  cases hw with
  | new =>
      refine ⟨[], ?_, by simp⟩
      simpa [Writer.writePrefix, Writer.new, ready, openText] using h.symm
  | root v => simp [Writer.writePrefix, ready, Writer.put] at h
  | inside f outer hOuter =>
      refine ⟨f :: outer, ?_, ?_⟩
      · rw [Writer.writePrefix] at h
        dsimp only at h
        split_ifs at h
        simpa [ready, openText, Frame.level] using h.symm
      · rintro _ _ ⟨⟩
        refine ⟨?_, hOuter⟩
        rw [Writer.writePrefix] at h
        dsimp only at h
        split_ifs at h with hBad
        by_contra hNot
        rw [not_or] at hNot
        apply hBad
        rcases f with _ | ⟨members, _ | _⟩
        · simp [Frame.Expects] at hNot
        · exact ⟨rfl, by simp [Frame.level, Frame.count], hNot.2⟩
        · simp [Frame.Expects] at hNot

theorem Reached.scalar {w w' : Writer} {type : JsonType} {v : Value Empty} (hw : Reached w)
    (hType : type = .string → ∃ s, v = .string s) (h : w.scalar type v.render = some w') :
    Reached w' := by
  obtain ⟨w₁, hPrefix, rfl⟩ := Option.map_eq_some_iff.mp h
  obtain ⟨frames, rfl, hFrames⟩ := hw.writePrefix hPrefix
  apply put_value
  cases frames with
  | nil => trivial
  | cons f outer =>
      obtain ⟨hf, hOuter⟩ := hFrames f outer rfl
      exact ⟨hf.imp_right hType, hOuter⟩

theorem Reached.start {w w' : Writer} {type : JsonType} {f : Frame} {bracket : UInt8} (hw : Reached w)
    (hType : type ≠ .string) (hText : f.text = [bracket]) (hCount : f.count = 0)
    (h : w.start type f.inArray bracket = some w') : Reached w' := by
  obtain ⟨w₁, hPrefix, rfl⟩ := Option.map_eq_some_iff.mp h
  obtain ⟨frames, rfl, hFrames⟩ := hw.writePrefix hPrefix
  have hAll : ∀ p ∈ frames, p.Expects := by
    cases frames with
    | nil => simp
    | cons f outer =>
        obtain ⟨hf, hOuter⟩ := hFrames f outer rfl
        exact List.forall_mem_cons.mpr ⟨hf.resolve_right hType, hOuter⟩
  have hInside := Reached.inside f frames hAll
  rwa [hText, Frame.level, hCount] at hInside

/-- A frame that may be closed leaves a value behind. -/
theorem Reached.close {f : Frame} {outer : List Frame} {bracket : UInt8}
    (hOuter : ∀ p ∈ outer, p.Expects) (hText : f.text ++ [bracket] = f.value.render) :
    Reached ⟨openText outer ++ f.text ++ [bracket], outer.map (·.level 1), Bool.true⟩ := by
  have hAccepts : Accepts f.value outer := by
    cases outer with
    | nil => trivial
    | cons p outer => exact ⟨.inl (hOuter p (by simp)), fun q hq => hOuter q (by simp [hq])⟩
  have hPut := put_value hAccepts
  rw [← hText] at hPut
  simpa [ready, put, List.append_assoc] using hPut

theorem Reached.bool {w w' : Writer} {b : Bool} (hw : Reached w) (h : w.bool b = some w') :
    Reached w' := by
  cases b with
  | false => exact hw.scalar (v := .bool Bool.false) (by simp) h
  | true => exact hw.scalar (v := .bool Bool.true) (by simp) h

theorem Reached.integer {w w' : Writer} {n : Integer} (hw : Reached w)
    (h : w.integer n = some w') : Reached w' :=
  hw.scalar (v := .integer n) (by simp) h

theorem Reached.string {w w' : Writer} {s : Bytes} (hw : Reached w)
    (h : w.string s = some w') : Reached w' :=
  hw.scalar (v := .string s) (fun _ => ⟨s, rfl⟩) h

theorem Reached.key {w w' : Writer} {s : Bytes} (hw : Reached w) (h : w.key s = some w') :
    Reached w' :=
  hw.string h

theorem Reached.startObject {w w' : Writer} (hw : Reached w) (h : w.startObject = some w') :
    Reached w' :=
  hw.start (f := .object [] none) (by simp) rfl rfl h

theorem Reached.startArray {w w' : Writer} (hw : Reached w) (h : w.startArray = some w') :
    Reached w' :=
  hw.start (f := .array []) (by simp) rfl rfl h

theorem Reached.endObject {w w' : Writer} (hw : Reached w) (h : w.endObject = some w') :
    Reached w' := by
  cases hw with
  | new => simp [Writer.endObject, Writer.new] at h
  | root v => simp [Writer.endObject, ready, put] at h
  | inside f outer hOuter =>
      rcases f with items | ⟨members, _ | name⟩
      · simp [Writer.endObject, Frame.level, Frame.inArray] at h
      · simp only [Writer.endObject, Frame.level, Frame.inArray, Frame.count, Nat.add_zero,
          Nat.mul_mod_right, if_true, Option.some.injEq] at h
        subst h
        exact close (f := .object members none) hOuter rfl
      · simp [Writer.endObject, Frame.level, Frame.inArray, Frame.count] at h

theorem Reached.endArray {w w' : Writer} (hw : Reached w) (h : w.endArray = some w') :
    Reached w' := by
  cases hw with
  | new => simp [Writer.endArray, Writer.new] at h
  | root v => simp [Writer.endArray, ready, put] at h
  | inside f outer hOuter =>
      rcases f with items | ⟨members, name⟩
      · simp only [Writer.endArray, Frame.level, Frame.inArray, Option.some.injEq] at h
        subst h
        exact close (f := .array items) hOuter rfl
      · simp [Writer.endArray, Frame.level, Frame.inArray] at h

/-- Whatever calls were made, a complete writer has written a value. -/
theorem Reached.render {w : Writer} (hw : Reached w) (h : w.IsComplete) :
    ∃ v : Value Empty, w.os = v.render := by
  cases hw with
  | new => simp [IsComplete, Writer.new] at h
  | root v => exact ⟨v, by simp [ready, put, openText]⟩
  | inside f outer hOuter => simp [IsComplete] at h

end Writer

/-! ## Writing a value -/

namespace Value

def type {δ : Type} : Value δ → JsonType
  | .null => .null
  | .bool b => if b then .true else .false
  | .integer _ => .number
  | .double _ => .number
  | .string _ => .string
  | .array _ => .array
  | .object _ => .object

mutual

/-- The calls that write a value, as `GenericValue::Accept` makes them. -/
def accept : Value Empty → Writer → Option Writer
  | .null, w => w.null
  | .bool b, w => w.bool b
  | .integer n, w => w.integer n
  | .string s, w => w.string s
  | .array items, w => do
      let w ← w.startArray
      let w ← acceptItems items w
      w.endArray
  | .object members, w => do
      let w ← w.startObject
      let w ← acceptMembers members w
      w.endObject

def acceptItems : List (Value Empty) → Writer → Option Writer
  | [], w => some w
  | v :: items, w => do
      let w ← accept v w
      acceptItems items w

def acceptMembers : List (Bytes × Value Empty) → Writer → Option Writer
  | [], w => some w
  | (name, v) :: members, w => do
      let w ← w.key name
      let w ← accept v w
      acceptMembers members w

end

/-- The items of an array behind `n` others. -/
def itemsBehind (n : Nat) (items : List (Value Empty)) : Bytes :=
  if n = 0 then renderItems items else renderItemsTail items

/-- The members of an object behind `n` others. -/
def membersBehind (n : Nat) (members : List (Bytes × Value Empty)) : Bytes :=
  if n = 0 then renderMembers members else renderMembersTail members

theorem itemsBehind_cons (n : Nat) (v : Value Empty) (items : List (Value Empty)) :
    itemsBehind n (v :: items) =
      Writer.separator ⟨true, n⟩ ++ v.render ++ itemsBehind (n + 1) items := by
  rcases Nat.eq_zero_or_pos n with rfl | hPos
  · simp [itemsBehind, renderItems, Writer.separator]
  · simp [itemsBehind, renderItemsTail, Writer.separator, hPos, Nat.ne_of_gt hPos]

theorem membersBehind_cons (n : Nat) (name : Bytes) (v : Value Empty)
    (members : List (Bytes × Value Empty)) :
    membersBehind n ((name, v) :: members) =
      Writer.separator ⟨false, 2 * n⟩ ++ quote name ++ Writer.separator ⟨false, 2 * n + 1⟩ ++
        v.render ++ membersBehind (n + 1) members := by
  rcases Nat.eq_zero_or_pos n with rfl | hPos
  · simp [membersBehind, renderMembers, Writer.separator]
  · simp [membersBehind, renderMembersTail, Writer.separator, hPos, Nat.ne_of_gt hPos]

/-- In an array any value may come next. -/
theorem writePrefix_array (os : Bytes) (n : Nat) (outer : List Level) (root : Bool)
    (type : JsonType) :
    Writer.writePrefix ⟨os, ⟨true, n⟩ :: outer, root⟩ type =
      some ⟨os ++ Writer.separator ⟨true, n⟩, ⟨true, n + 1⟩ :: outer, root⟩ := by
  simp [Writer.writePrefix]

/-- In an object a name may come first. -/
theorem key_object (os : Bytes) (n : Nat) (outer : List Level) (root : Bool) (name : Bytes) :
    Writer.key ⟨os, ⟨false, n⟩ :: outer, root⟩ name =
      some ⟨os ++ Writer.separator ⟨false, n⟩ ++ quote name, ⟨false, n + 1⟩ :: outer, root⟩ := by
  simp [Writer.key, Writer.string, Writer.scalar, Writer.writePrefix, Writer.put]

/-- In an object any value may come behind a name. -/
theorem writePrefix_named (os : Bytes) (n : Nat) (outer : List Level) (root : Bool)
    (type : JsonType) :
    Writer.writePrefix ⟨os, ⟨false, 2 * n + 1⟩ :: outer, root⟩ type =
      some ⟨os ++ Writer.separator ⟨false, 2 * n + 1⟩, ⟨false, 2 * (n + 1)⟩ :: outer, root⟩ := by
  simp [Writer.writePrefix, Nat.mul_add]

mutual

/-- Wherever a value may stand, the writer takes it and appends its text. -/
theorem accept_spec : ∀ (v : Value Empty) {w w₁ : Writer}, w.writePrefix v.type = some w₁ →
    v.accept w = some (w₁.put v.render)
  | .null, w, w₁, h => by
      rw [accept, Writer.null, Writer.scalar]
      rw [type] at h
      simp [h, render]
  | .bool b, w, w₁, h => by
      rw [accept, Writer.bool]
      rw [type] at h
      cases b <;> simp_all [Writer.scalar, render]
  | .integer n, w, w₁, h => by
      rw [accept, Writer.integer, Writer.scalar]
      rw [type] at h
      simp [h, render]
  | .string s, w, w₁, h => by
      rw [accept, Writer.string, Writer.scalar]
      rw [type] at h
      simp [h, render]
  | .array items, w, ⟨os, levels, root⟩, h => by
      rw [type] at h
      have hStart : w.startArray = some ⟨os ++ [0x5B], ⟨true, 0⟩ :: levels, root⟩ := by
        simp [Writer.startArray, Writer.start, h]
      simp [accept, hStart, acceptItems_spec items, Writer.endArray, itemsBehind, Writer.put,
        render]
  | .object members, w, ⟨os, levels, root⟩, h => by
      rw [type] at h
      have hStart : w.startObject = some ⟨os ++ [0x7B], ⟨false, 2 * 0⟩ :: levels, root⟩ := by
        simp [Writer.startObject, Writer.start, h]
      simp only [accept, hStart, Option.bind_eq_bind, Option.bind_some,
        acceptMembers_spec members]
      simp [Writer.endObject, membersBehind, Writer.put, render]

theorem acceptItems_spec : ∀ (items : List (Value Empty)) (os : Bytes) (n : Nat)
    (outer : List Level) (root : Bool),
    acceptItems items ⟨os, ⟨true, n⟩ :: outer, root⟩ =
      some ⟨os ++ itemsBehind n items, ⟨true, n + items.length⟩ :: outer, root⟩
  | [], os, n, outer, root => by
      simp [acceptItems, itemsBehind, renderItems, renderItemsTail]
  | v :: items, os, n, outer, root => by
      have hFirst := accept_spec v (writePrefix_array os n outer root v.type)
      rw [acceptItems, hFirst, Option.bind_eq_bind, Option.bind_some, Writer.put,
        acceptItems_spec items, itemsBehind_cons]
      simp [List.append_assoc, Nat.add_assoc, Nat.add_comm 1]

theorem acceptMembers_spec : ∀ (members : List (Bytes × Value Empty)) (os : Bytes) (n : Nat)
    (outer : List Level) (root : Bool),
    acceptMembers members ⟨os, ⟨false, 2 * n⟩ :: outer, root⟩ =
      some ⟨os ++ membersBehind n members, ⟨false, 2 * (n + members.length)⟩ :: outer, root⟩
  | [], os, n, outer, root => by
      simp [acceptMembers, membersBehind, renderMembers, renderMembersTail]
  | (name, v) :: members, os, n, outer, root => by
      have hFirst := accept_spec v (writePrefix_named
        (os ++ Writer.separator ⟨false, 2 * n⟩ ++ quote name) n outer root v.type)
      rw [acceptMembers, key_object, Option.bind_eq_bind, Option.bind_some, hFirst,
        Option.bind_some, Writer.put, acceptMembers_spec members, membersBehind_cons]
      simp [List.append_assoc, Nat.add_assoc, Nat.add_comm 1]

end

/-- The text of a value written to an empty buffer. -/
theorem accept_new (v : Value Empty) : v.accept .new = some ⟨v.render, [], true⟩ := by
  have hPrefix : Writer.writePrefix .new v.type = some ⟨[], [], true⟩ := by
    simp [Writer.writePrefix, Writer.new]
  rw [accept_spec v hPrefix]
  rfl

theorem getString_render (v : Value Empty) : Writer.getString ⟨v.render, [], true⟩ = v.render :=
  cstr_eq_self (zero_notMem_render v)

end Value

/-! ## Writing into an open container -/

namespace Frame

/-- The frame with one more value, if the value may stand there. -/
def push (f : Frame) (v : Value Empty) : Option Frame :=
  match f, v with
  | .object _ none, .string _ => some (f.add v)
  | .object _ none, _ => none
  | _, _ => some (f.add v)

/-- The frame with more values. -/
def pushAll (f : Frame) : List (Value Empty) → Option Frame
  | [] => some f
  | v :: values => (f.push v).bind fun f => f.pushAll values

theorem push_eq_some_iff {f f' : Frame} {v : Value Empty} :
    f.push v = some f' ↔ (f.Expects ∨ ∃ s, v = .string s) ∧ f' = f.add v := by
  rcases f with items | ⟨members, name | name⟩
  · simp [push, Expects, eq_comm]
  · cases v <;> simp [push, Expects, eq_comm]
  · simp [push, Expects, eq_comm]

theorem pushAll_array (items values : List (Value Empty)) :
    (Frame.array items).pushAll values = some (.array (items ++ values)) := by
  induction values generalizing items with
  | nil => simp [pushAll]
  | cons v values ih => simp [pushAll, push, add, ih]

/-- The counter counts. -/
theorem count_pushAll {f f' : Frame} {values : List (Value Empty)} (h : f.pushAll values = some f') :
    f'.count = f.count + values.length := by
  induction values generalizing f with
  | nil =>
      cases h
      rfl
  | cons v values ih =>
      obtain ⟨g, hPush, hRest⟩ := Option.bind_eq_some_iff.mp h
      obtain ⟨hAdd, rfl⟩ := push_eq_some_iff.mp hPush
      rw [ih hRest, count_add hAdd, List.length_cons]
      omega

/-- The members of an object that is closed after these values. -/
def closed (values : List (Value Empty)) : Option (List (Bytes × Value Empty)) :=
  match (Frame.object [] none).pushAll values with
  | some (.object members none) => some members
  | _ => none

/-- An object is closed after two values for each member. -/
theorem length_of_closed {values : List (Value Empty)} {members : List (Bytes × Value Empty)}
    (h : closed values = some members) : values.length = 2 * members.length := by
  unfold closed at h
  split at h
  · rename_i members' hPush
    cases h
    have hCount := count_pushAll hPush
    simp only [count, List.length_nil] at hCount
    omega
  · cases h

end Frame

namespace Writer

/-- A writer in a frame that was opened on `w`. -/
def inside (w : Writer) (f : Frame) : Writer := ⟨w.os ++ f.text, f.level 0 :: w.levelStack, w.hasRoot⟩

theorem startObject_eq (w : Writer) :
    w.startObject = (w.writePrefix .object).map fun w => w.inside (.object [] none) := rfl

theorem startArray_eq (w : Writer) :
    w.startArray = (w.writePrefix .array).map fun w => w.inside (.array []) := rfl

theorem endArray_inside (w : Writer) (items : List (Value Empty)) :
    (w.inside (.array items)).endArray = some (w.put (Value.array items).render) := by
  simp [inside, endArray, Frame.level, Frame.inArray, Frame.text, put, Value.render]

/-- An object ends if no name is left dangling. -/
theorem endObject_inside (w : Writer) (members : List (Bytes × Value Empty)) (name : Option Bytes) :
    (w.inside (.object members name)).endObject =
      if name = none then some (w.put (Value.object members).render) else none := by
  cases name with
  | none =>
      simp [inside, endObject, Frame.level, Frame.inArray, Frame.count, Frame.text, put,
        Value.render]
  | some name => simp [inside, endObject, Frame.level, Frame.inArray, Frame.count]

/-- What may be written next depends on the frame alone. -/
theorem writePrefix_inside (w : Writer) (f : Frame) (type : JsonType) :
    ((f.Expects ∨ type = .string) ∧
      (w.inside f).writePrefix type = some
        ⟨w.os ++ f.text ++ separator (f.level 0), f.level 1 :: w.levelStack, w.hasRoot⟩) ∨
    (¬ (f.Expects ∨ type = .string) ∧ (w.inside f).writePrefix type = none) := by
  rcases f with items | ⟨members, name | name⟩
  · simp [inside, writePrefix, Frame.level, Frame.inArray, Frame.Expects]
  · by_cases hType : type = .string
    · simp [inside, writePrefix, Frame.level, Frame.inArray, hType]
    · simp [inside, writePrefix, Frame.level, Frame.inArray, Frame.count, Frame.Expects, hType]
  · simp [inside, writePrefix, Frame.level, Frame.inArray, Frame.count, Frame.Expects]

end Writer

namespace Value

theorem type_eq_string {v : Value Empty} : v.type = .string ↔ ∃ s, v = .string s := by
  cases v with
  | bool b => cases b <;> simp [type]
  | _ => simp [type]

/-- Where its prefix is refused, a value is refused. -/
theorem accept_of_refused {v : Value Empty} {w : Writer} (h : w.writePrefix v.type = none) :
    v.accept w = none := by
  cases v with
  | bool b => cases b <;> simp_all [accept, Writer.bool, Writer.scalar, type]
  | double d => exact d.elim
  | _ =>
      simp_all [accept, Writer.null, Writer.integer, Writer.string, Writer.scalar,
        Writer.startArray, Writer.startObject, Writer.start, type]

/-- Writing a value inside a frame adds it to the frame. -/
theorem accept_inside (v : Value Empty) (w : Writer) (f : Frame) :
    v.accept (w.inside f) = (f.push v).map w.inside := by
  obtain ⟨hAllowed, hPrefix⟩ | ⟨hRefused, hPrefix⟩ := w.writePrefix_inside f v.type
  · rw [type_eq_string] at hAllowed
    rw [accept_spec v hPrefix, Frame.push_eq_some_iff.mpr ⟨hAllowed, rfl⟩]
    simp [Writer.inside, Writer.put, Frame.text_add hAllowed, Frame.level_add hAllowed]
  · rw [accept_of_refused hPrefix]
    cases hPush : f.push v with
    | none => rfl
    | some g =>
        rw [type_eq_string] at hRefused
        exact absurd (Frame.push_eq_some_iff.mp hPush).1 hRefused

theorem acceptItems_inside (values : List (Value Empty)) (w : Writer) (f : Frame) :
    acceptItems values (w.inside f) = (f.pushAll values).map w.inside := by
  induction values generalizing f with
  | nil => rfl
  | cons v values ih =>
      rw [acceptItems, accept_inside, Frame.pushAll]
      cases f.push v with
      | none => rfl
      | some g => exact ih g

theorem acceptItems_append (values values' : List (Value Empty)) (w : Writer) :
    acceptItems (values ++ values') w = (acceptItems values w).bind (acceptItems values') := by
  induction values generalizing w with
  | nil => rfl
  | cons v values ih =>
      rw [List.cons_append, acceptItems, acceptItems]
      cases v.accept w with
      | none => rfl
      | some w => exact ih w

end Value

end Kexplorer.Json

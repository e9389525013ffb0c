import Kexplorer.Process.ProcessProps

/-!
# Exceptions and the reports of them

A `Kes::Exception` says where it was thrown and carries properties.
`formatException` reports it together with all that is nested in it, a line for
every fact and one more step of indentation for every exception.  A property
whose value has not the type that its id declares throws in the middle of this,
and then nothing is left of the report.
-/

namespace Kexplorer.Util

open Kexplorer.Props

/-! ## Declarations -/

/-- The `FormatterT` of a declaration: `NullPropertyFormatter`, or
`PropertyFormatter` of one of the types that it is defined for. -/
inductive Formatter
  | null
  | bool
  | int
  | uint
  | int64
  | uint64
  | string
  deriving DecidableEq

/-- `PropertyFormatter::operator()` of a value; `none` is a `bad_any_cast`. -/
def Formatter.print : Formatter → Any → Option Bytes
  | .bool, .bool b => some (ascii (if b then "true" else "false"))
  | .int, .int n => some (Json.Integer.ofInt32 n).render
  | .uint, .uint n => some (Json.Integer.ofUInt32 n).render
  | .int64, .int64 n => some (Json.Integer.ofInt64 n).render
  | .uint64, .uint64 n => some (Json.Integer.ofUInt64 n).render
  | .string, .string s => some s
  | _, _ => none

/-- `operator()` of the formatter: the null formatter looks at nothing, and the
others cannot cast an empty `any` either. -/
def Formatter.format (formatter : Formatter) (value : Option Any) : Option Bytes :=
  if formatter = .null then some [] else value.bind formatter.print

/-- A `PropertyInfo` with the two arguments that only a report asks for. -/
structure Declaration where
  info : PropertyInfo
  name : Bytes
  formatter : Formatter
  deriving DecidableEq

/-- All declarations of the library. -/
def declarations : List Declaration :=
  [ ⟨ExceptionProps.DecodedError, ascii "Error message", .string⟩,
    ⟨ExceptionProps.PosixErrorCode, ascii "POSIX error code", .int⟩,
    ⟨Request.Id, ascii "RequestId", .int⟩,
    ⟨Request.Command, ascii "Request", .string⟩,
    ⟨Response.Status, ascii "Status", .string⟩,
    ⟨Response.Reason, ascii "Reason", .string⟩,
    ⟨Response.Version, ascii "Server Version", .string⟩,
    ⟨ProcessProps.Process, ascii "Process Info", .null⟩,
    ⟨ProcessProps.DeletedProcess, ascii "Deleted Process", .null⟩,
    ⟨ProcessProps.ProcessList, ascii "Process List", .null⟩,
    ⟨ProcessProps.DeletedProcessList, ascii "Deleted Process List", .null⟩,
    ⟨ProcessProps.Error, ascii "__Error", .string⟩,
    ⟨ProcessProps.Newcomer, ascii "__New", .bool⟩,
    ⟨ProcessProps.Pid, ascii "PID", .int⟩,
    ⟨ProcessProps.PPid, ascii "Parent PID", .int⟩,
    ⟨ProcessProps.PGrp, ascii "Process Group ID", .int⟩,
    ⟨ProcessProps.Tpgid, ascii "Process Group ID of the Terminal", .int⟩,
    ⟨ProcessProps.Session, ascii "Session ID", .int⟩,
    ⟨ProcessProps.Ruid, ascii "User ID", .int⟩,
    ⟨ProcessProps.StatComm, ascii "Command Name", .string⟩,
    ⟨ProcessProps.Comm, ascii "Program Name", .string⟩,
    ⟨ProcessProps.CmdLine, ascii "Command Line", .string⟩,
    ⟨ProcessProps.Exe, ascii "Executable Name", .string⟩ ]

/-- `lookupProperty` after `Kes::initialize`, with all that the declaration
says. -/
def lookupProperty (id : PropId) : Option Declaration :=
  (knownRegistry.lookupId id).bind fun info => declarations.find? fun d => d.info = info

/-! ## Exceptions -/

/-- `Kes::SourceLocation`: the place in the source, and what the stack prints
unless it is empty. -/
structure SourceLocation where
  file : CString
  line : Nat
  stack : Option Bytes

/-- `Exception::Context`. -/
structure Context where
  message : Bytes
  properties : List Property

def Context.addProp (context : Context) (prop : Property) : Context :=
  { context with properties := context.properties ++ [prop] }

/-- The constructors of the context: a property is added after all those that
follow it among the arguments. -/
def Context.new (message : Bytes) : List Property → Context
  | [] => { message := message, properties := [] }
  | prop :: props => (Context.new message props).addProp prop

/-- `Kes::Exception`; only one that was constructed without arguments has no
context. -/
structure Exception where
  source : SourceLocation
  context : Option Context

namespace Exception

def new (source : SourceLocation) (message : Bytes) (props : List Property) : Exception :=
  { source := source, context := some (.new message props) }

def add (e : Exception) (prop : Property) : Exception :=
  { e with context := e.context.map fun context => context.addProp prop }

/-- The head of a report: `message()`, and `what()` where there is none. -/
def text (e : Exception) : Bytes := e.context.elim (ascii "Unknown exception") Context.message

/-- `properties()`, of which an exception without context has none. -/
def properties (e : Exception) : List Property := e.context.elim [] Context.properties

/-- `find`. -/
def find (e : Exception) (id : PropId) : Option Property := e.properties.find? fun p => p.id = id

end Exception

/-- What `rethrow_if_nested` finds in an exception. -/
inductive Nested
  /-- The exception is no `nested_exception`. -/
  | nothing
  /-- It is one that was made while no exception was handled. -/
  | null
  /-- What is nested is no `std::exception`. -/
  | foreign
  | std (what : CString) (nested : Nested)
  | kes (e : Exception) (nested : Nested)

/-! ## Formatting -/

/-- What ends `formatException` before its end. -/
inductive Interruption
  | badAnyCast
  | terminate
  deriving DecidableEq

/-- `std::string(level * 3, ' ')`. -/
def indent (level : Nat) : Bytes := List.replicate (level * 3) 0x20

/-- The start of an exception's part of the report. -/
def lead (level : Nat) : Bytes := if level = 0 then [] else 0x0A :: indent level

section

variable (lookup : PropId → Option Declaration)

/-- A property in a report. -/
def formatProperty (level : Nat) (prop : Property) : Option Bytes :=
  ((lookup prop.id).elim (some (ascii " 0x" ++ hex8 prop.id ++ ascii ": ???")) fun d =>
    (d.formatter.format prop.value).map fun value => d.name ++ ascii ": " ++ value).map
      fun fact => ascii "\n " ++ indent level ++ fact

/-- The properties in a report, up to the first that throws. -/
def formatProperties (level : Nat) : List Property → Option Bytes
  | [] => some []
  | prop :: props => do
      let first ← formatProperty lookup level prop
      let rest ← formatProperties level props
      return first ++ rest

/-- What a report says of an exception before it turns to what is nested. -/
def formatKes (level : Nat) (e : Exception) : Except Interruption Bytes :=
  (formatProperties lookup level e.properties).elim (.error .badAnyCast) fun props =>
    .ok (lead level ++ e.text ++
      ascii "\n" ++ indent level ++ ascii " File: " ++ e.source.file.bytes ++
      ascii "\n" ++ indent level ++ ascii " Line: " ++ Json.decimal e.source.line ++
      e.source.stack.elim [] (fun stack =>
        ascii "\n" ++ indent level ++ ascii " Stack:\n" ++ stack) ++
      props)

/-- Both functions that format an exception at a level, and the handlers that
call them for what is nested.  What a handler throws no other handler of the
same `try` catches. -/
def formatAt (level : Nat) : Nested → Except Interruption Bytes
  | .nothing => .ok []
  | .null => .error .terminate
  | .foreign => .ok []
  | .std what nested => do
      let rest ← formatAt (level + 1) nested
      return lead level ++ what.bytes ++ rest
  | .kes e nested => do
      let own ← formatKes lookup level e
      let rest ← formatAt (level + 1) nested
      return own ++ rest

/-- `Util::formatException` of an exception, given with what is nested in it.
`none` is `std::terminate`, and all else is caught. -/
def formatException (e : Nested) : Option Bytes :=
  match formatAt lookup 0 e with
  | .ok report => some report
  | .error .badAnyCast => some []
  | .error .terminate => none

end

/-! ## What a report says -/

namespace Nested

/-- The exceptions of the program itself, from the outermost on. -/
def exceptions : Nested → List Exception
  | .nothing => []
  | .null => []
  | .foreign => []
  | .std _ nested => nested.exceptions
  | .kes e nested => e :: nested.exceptions

/-- Innermost is a `nested_exception` that holds nothing. -/
def endsNull : Nested → Bool
  | .nothing => false
  | .null => true
  | .foreign => false
  | .std _ nested => nested.endsNull
  | .kes _ nested => nested.endsNull

end Nested

section

variable (lookup : PropId → Option Declaration)

/-- The value is of no type that the formatter of its id can print. -/
def misprinted (prop : Property) : Bool :=
  (lookup prop.id).any fun d => (d.formatter.format prop.value).isNone

def Nested.misprinted (e : Nested) : Bool :=
  e.exceptions.any fun e => e.properties.any (Util.misprinted lookup)

/-- The line of a property. -/
def propertyLine (level : Nat) (prop : Property) : Bytes :=
  ascii " " ++ indent level ++
    (lookup prop.id).elim (ascii " 0x" ++ hex8 prop.id ++ ascii ": ???") fun d =>
      d.name ++ ascii ": " ++ (d.formatter.format prop.value).getD []

/-- The lines of an exception; what a stack prints counts as one. -/
def Exception.lines (level : Nat) (e : Exception) : List Bytes :=
  (indent level ++ e.text) :: (indent level ++ ascii " File: " ++ e.source.file.bytes) ::
    (indent level ++ ascii " Line: " ++ Json.decimal e.source.line) ::
    (e.source.stack.elim [] (fun stack => [indent level ++ ascii " Stack:", stack]) ++
      e.properties.map (propertyLine lookup level))

/-- The lines of an exception and of all that is nested in it. -/
def Nested.lines (level : Nat) : Nested → List Bytes
  | .nothing => []
  | .null => []
  | .foreign => []
  | .std what nested => (indent level ++ what.bytes) :: nested.lines (level + 1)
  | .kes e nested => e.lines lookup level ++ nested.lines (level + 1)

end

/-- Lines that follow another. -/
def following (lines : List Bytes) : Bytes := lines.flatMap fun line => 0x0A :: line

/-- Lines where a part of the report at this level starts. -/
def startingAt (level : Nat) : List Bytes → Bytes
  | [] => []
  | line :: lines => (if level = 0 then line else 0x0A :: line) ++ following lines

theorem following_append (lines rest : List Bytes) :
    following (lines ++ rest) = following lines ++ following rest :=
  List.flatMap_append

theorem startingAt_succ (level : Nat) (lines : List Bytes) :
    startingAt (level + 1) lines = following lines := by
  cases lines with
  | nil => rfl
  | cons line lines => simp [startingAt, following]

/-- The lines of an exception are followed by those of what is nested in it. -/
theorem startingAt_append (level : Nat) (line : Bytes) (lines rest : List Bytes) :
    startingAt level (line :: lines) ++ following rest =
      startingAt level (line :: lines ++ rest) := by
  rw [startingAt, List.cons_append, startingAt, following_append, List.append_assoc]

/-- At the outermost level the lines are joined by newlines. -/
theorem startingAt_zero (lines : List Bytes) : startingAt 0 lines = [0x0A].intercalate lines := by
  induction lines with
  | nil => rfl
  | cons line lines ih =>
      cases lines with
      | nil => simp [startingAt, following]
      | cons next lines =>
          rw [List.intercalate_cons_cons, ← ih]
          simp [startingAt, following]

theorem lead_append (level : Nat) (text : Bytes) (lines : List Bytes) :
    lead level ++ text ++ following lines = startingAt level ((indent level ++ text) :: lines) := by
  cases level with
  | zero => simp [lead, startingAt, indent]
  | succ level => simp [lead, startingAt]

section

variable {lookup : PropId → Option Declaration}

theorem formatProperty_eq (level : Nat) (prop : Property) :
    formatProperty lookup level prop =
      if misprinted lookup prop then none else some (0x0A :: propertyLine lookup level prop) := by
  unfold formatProperty misprinted propertyLine
  cases lookup prop.id with
  | none => simp [ascii]
  | some d =>
      cases hValue : d.formatter.format prop.value with
      | none => simp [hValue]
      | some value => simp [hValue, ascii]

theorem formatProperties_eq (level : Nat) (props : List Property) :
    formatProperties lookup level props =
      if props.any (misprinted lookup) then none
      else some (following (props.map (propertyLine lookup level))) := by
  induction props with
  | nil => rfl
  | cons prop props ih =>
      rw [formatProperties, ih, formatProperty_eq]
      cases hFirst : misprinted lookup prop with
      | true => simp [hFirst]
      | false =>
          cases hRest : props.any (misprinted lookup) with
          | true => simp [hFirst, hRest]
          | false => simp [hFirst, hRest, following]

theorem formatKes_eq (level : Nat) (e : Exception) :
    formatKes lookup level e =
      if e.properties.any (misprinted lookup) then .error .badAnyCast
      else .ok (startingAt level (e.lines lookup level)) := by
  rw [formatKes, formatProperties_eq]
  split
  · rfl
  · rw [Exception.lines, ← lead_append]
    cases e.source.stack with
    | none => simp [following, ascii]
    | some stack => simp [following, ascii]

theorem formatAt_eq (e : Nested) : ∀ level : Nat,
    formatAt lookup level e =
      if e.misprinted lookup then .error .badAnyCast
      else if e.endsNull then .error .terminate
      else .ok (startingAt level (e.lines lookup level)) := by
  induction e with
  | nothing => exact fun _ => rfl
  | null => exact fun _ => rfl
  | foreign => exact fun _ => rfl
  | std what nested ih =>
      intro level
      rw [formatAt, ih, startingAt_succ, Nested.endsNull, Nested.lines, ← lead_append]
      have hSame : (Nested.std what nested).misprinted lookup = nested.misprinted lookup := rfl
      rw [hSame]
      split
      · rfl
      · split
        · rfl
        · rfl
  | kes e nested ih =>
      intro level
      rw [formatAt, ih, startingAt_succ, formatKes_eq, Nested.endsNull, Nested.lines]
      have hBoth : (Nested.kes e nested).misprinted lookup =
          (e.properties.any (misprinted lookup) || nested.misprinted lookup) := rfl
      rw [hBoth]
      cases hOwn : e.properties.any (misprinted lookup) with
      | true => rfl
      | false =>
          cases hNested : nested.misprinted lookup with
          | true => rfl
          | false =>
              cases hNull : nested.endsNull with
              | true => rfl
              | false => exact congrArg Except.ok (startingAt_append level _ _ _)

/-- Where no formatter throws, the report has a line for everything. -/
theorem formatException_of_printed {e : Nested} (h : e.misprinted lookup = false) :
    formatException lookup e =
      if e.endsNull then none else some ([0x0A].intercalate (e.lines lookup 0)) := by
  rw [formatException, formatAt_eq, h]
  cases e.endsNull with
  | true => rfl
  | false => exact congrArg some (startingAt_zero _)

/-- A report is lost as a whole if an exception anywhere in it has a property that its formatter
cannot cast; the process ends if what is nested innermost is nothing; and otherwise the report has a
line for everything, the exceptions in order and each indented by three spaces more. -/
theorem formatException_eq (lookup : PropId → Option Declaration) (e : Nested) :
    formatException lookup e =
      if e.misprinted lookup then some []
      else if e.endsNull then none
      else some ([0x0A].intercalate (e.lines lookup 0)) := by
  cases h : e.misprinted lookup with
  | true => rw [formatException, formatAt_eq, h]; rfl
  | false => exact formatException_of_printed h

end

/-! ## Declared properties -/

/-- What `std::any` holds when the property was made of a `PropertyInfo`: a value of its type.
There are no values of the container types, so nothing is made of a declaration of a table or an
array. -/
def Declaration.Makes (d : Declaration) (prop : Property) : Prop :=
  prop.id = d.info.id ∧ prop.value.map Any.type = some d.info.type

/-- Every property was made of one of the library's declarations. -/
def Exception.Declared (e : Exception) : Prop :=
  ∀ prop ∈ e.properties, ∃ d ∈ declarations, d.Makes prop

theorem Exception.properties_new (source : SourceLocation) (message : Bytes)
    (props : List Property) : (Exception.new source message props).properties = props.reverse := by
  induction props with
  | nil => rfl
  | cons prop props ih =>
      rw [List.reverse_cons, ← ih]
      rfl

theorem Exception.properties_add (e : Exception) (prop : Property) :
    (e.add prop).properties = e.context.elim [] fun _ => e.properties ++ [prop] := by
  cases hContext : e.context with
  | none => simp [Exception.add, Exception.properties, hContext]
  | some context => simp [Exception.add, Exception.properties, hContext, Context.addProp]

/-- Of several arguments with the same id, `find` gives the last. -/
theorem Exception.find_new (source : SourceLocation) (message : Bytes) (props : List Property)
    (id : PropId) :
    (Exception.new source message props).find id = props.reverse.find? fun p => p.id = id := by
  rw [find, properties_new]

/-- But a property that is added later does not take the place of one that is there. -/
theorem Exception.find_add_of_some {e : Exception} {id : PropId} {found : Property}
    (h : e.find id = some found) (prop : Property) : (e.add prop).find id = some found := by
  rw [find] at h
  cases hContext : e.context with
  | none => simp [properties, hContext] at h
  | some context =>
      rw [find, properties_add, hContext, Option.elim_some, List.find?_append, h, Option.some_or]

/-- An exception that is thrown with declared properties has only these. -/
theorem Exception.declared_new (source : SourceLocation) (message : Bytes) {props : List Property}
    (h : ∀ prop ∈ props, ∃ d ∈ declarations, d.Makes prop) :
    (Exception.new source message props).Declared := by
  intro prop hProp
  rw [properties_new, List.mem_reverse] at hProp
  exact h prop hProp

/-- And so it stays when a declared property is added. -/
theorem Exception.Declared.add {e : Exception} (h : e.Declared) {prop : Property}
    (hProp : ∃ d ∈ declarations, d.Makes prop) : (e.add prop).Declared := by
  intro other hOther
  rw [properties_add] at hOther
  cases hContext : e.context with
  | none => simp [hContext] at hOther
  | some context =>
      rw [hContext, Option.elim_some, List.mem_append, List.mem_singleton] at hOther
      rcases hOther with hOther | rfl
      · exact h other hOther
      · exact hProp

/-- The type that a formatter casts to. -/
def Formatter.type? : Formatter → Option TypeInfo
  | .null => none
  | .bool => some .bool
  | .int => some .int
  | .uint => some .uint
  | .int64 => some .int64
  | .uint64 => some .uint64
  | .string => some .string

/-- A formatter prints every value of its type. -/
theorem Formatter.print_isSome {formatter : Formatter} {value : Any}
    (h : formatter.type? = some value.type) : (formatter.print value).isSome = true := by
  cases formatter <;> cases value <;> first | rfl | cases h

/-- Where a declaration has a formatter that looks at the value, it is that of its type. -/
theorem formatter_of_mem :
    ∀ d ∈ declarations, d.formatter = .null ∨ d.formatter.type? = some d.info.type := by
  decide

/-- Two declarations are never registered. -/
theorem known_of_mem : ∀ d ∈ declarations,
    d.info ∈ knownProps ∨ d.info = ProcessProps.Newcomer ∨ d.info = ProcessProps.Ruid := by
  simp [declarations, knownProps, ExceptionProps.all, ProcessProps.all]

/-- The declaration that a lookup finds is one with the info of the one that made the property. -/
theorem info_of_lookupProperty {d d' : Declaration} (hd : d ∈ declarations)
    (h : lookupProperty d.info.id = some d') : d' ∈ declarations ∧ d'.info = d.info := by
  obtain ⟨info, hInfo, hFind⟩ := Option.bind_eq_some_iff.mp h
  have hSame : d'.info = info := by simpa using List.find?_some hFind
  refine ⟨List.mem_of_find?_eq_some hFind, hSame.trans ?_⟩
  rcases known_of_mem d hd with hKnown | hNewcomer | hRuid
  · exact Option.some.inj (hInfo.symm.trans (registered_of_mem hKnown).1)
  · rw [hNewcomer, newcomer_unknown.2] at hInfo
    cases hInfo
  · rw [hRuid, ruid_unknown.2] at hInfo
    cases hInfo

theorem not_misprinted {d : Declaration} (hd : d ∈ declarations) {prop : Property}
    (hMakes : d.Makes prop) : misprinted lookupProperty prop = false := by
  obtain ⟨hId, hType⟩ := hMakes
  rw [misprinted, hId]
  cases hLookup : lookupProperty d.info.id with
  | none => rfl
  | some d' =>
      obtain ⟨hd', hInfo⟩ := info_of_lookupProperty hd hLookup
      obtain ⟨value, hValue, hType⟩ := Option.map_eq_some_iff.mp hType
      rw [Option.any_some, Formatter.format, hValue]
      rcases formatter_of_mem d' hd' with hNull | hTyped
      · rw [if_pos hNull]
        rfl
      · have hPrint : (d'.formatter.print value).isSome = true :=
          Formatter.print_isSome (by rw [hTyped, hInfo, hType])
        split
        · rfl
        · rw [Option.bind_some, Option.isNone_eq_false_iff, hPrint]

theorem Nested.not_misprinted {e : Nested} (h : ∀ inner ∈ e.exceptions, inner.Declared) :
    e.misprinted lookupProperty = false := by
  rw [Nested.misprinted, List.any_eq_false]
  intro inner hInner
  rw [Bool.not_eq_true, List.any_eq_false]
  intro prop hProp
  obtain ⟨d, hd, hMakes⟩ := h inner hInner prop hProp
  rw [Util.not_misprinted hd hMakes, Bool.not_eq_true]

/-- Exceptions with declared properties are reported in full, however deep they are nested, unless
what is nested innermost is nothing. -/
theorem formatException_declared (e : Nested) (h : ∀ inner ∈ e.exceptions, inner.Declared) :
    formatException lookupProperty e =
      if e.endsNull then none else some ([0x0A].intercalate (e.lines lookupProperty 0)) :=
  formatException_of_printed (Nested.not_misprinted h)

/-- Three exceptions, of which the middle one has the properties of a failed call. -/
def failedCall : Nested :=
  .std (literal "Level 3 exception")
    (.kes
      (.new { file := literal "exception.cpp", line := 107, stack := none }
        (ascii "POSIX exception")
        [ { id := ExceptionProps.PosixErrorCode.id, value := some (.int 2) },
          { id := ExceptionProps.DecodedError.id,
            value := some (.string (ascii "No such file")) } ])
      (.std (literal "std::bad_alloc") .nothing))

theorem formatException_failedCall :
    formatException lookupProperty failedCall =
      some ([0x0A].intercalate (failedCall.lines lookupProperty 0)) :=
  formatException_declared failedCall fun inner hInner => by
    obtain rfl := List.mem_singleton.mp hInner
    refine Exception.declared_new _ _ fun prop hProp => ?_
    rcases List.mem_pair.mp hProp with rfl | rfl
    · exact ⟨_, List.mem_cons_of_mem _ List.mem_cons_self, rfl, rfl⟩
    · exact ⟨_, List.mem_cons_self, rfl, rfl⟩

end Kexplorer.Util

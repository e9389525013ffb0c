import Mathlib.Logic.Basic

/-!
# Computations that report

A computation that meets something it cannot accept reports it, and whoever
hears the reports decides whether it goes on.  What it does may depend on the
reports made before it, and what it reports itself comes out beside its result.

Seen from outside, such a computation extends a partial function: where the
function is defined the computation is silent and returns its value, and where
it is not there is at least one report, whatever the listener decides.
`Extends` states this, and its rules follow the monad's operations.

Where the listener's decision is only whether to go on, the computation has a
script: the reports that it makes to a listener who always goes on, and the
result that it then has.  `Tells` states that, again with a rule for each
operation, and `telling_eq` says what a listener makes of a script.
-/

namespace Kexplorer.Lib

/-- A computation with reports in `μ`, exceptions in `ε` and results in `α`: it
is told what was reported before, and adds its own reports to its outcome. -/
def Reporting (μ ε α : Type) : Type := List μ → Except ε α × List μ

namespace Reporting

variable {μ ε α β : Type}

instance : Monad (Reporting μ ε) where
  pure a := fun _ => (.ok a, [])
  bind x f := fun past =>
    match x past with
    | (.ok a, made) =>
        match f a (past ++ made) with
        | (result, more) => (result, made ++ more)
    | (.error e, made) => (.error e, made)

/-- Report `m`; the listener goes on or answers with an exception. -/
def report (listen : List μ → μ → Option ε) (m : μ) : Reporting μ ε Unit := fun past =>
  match listen past m with
  | none => (.ok (), [m])
  | some e => (.error e, [m])

/-- Give up without a report. -/
def throw (e : ε) : Reporting μ ε α := fun _ => (.error e, [])

/-- The computation is silent exactly where the partial result is defined, and
then this is its result. -/
def Extends (x : Reporting μ ε α) : Option α → Prop
  | some a => ∀ past, x past = (.ok a, [])
  | none => ∀ past, (x past).2 ≠ []

theorem Extends.pure (a : α) : Extends (Pure.pure a : Reporting μ ε α) (some a) := fun _ => rfl

/-- A silent first part leaves the outcome to the second. -/
theorem bind_of_silent {x : Reporting μ ε α} {f : α → Reporting μ ε β} {past : List μ} {a : α}
    (hx : x past = (.ok a, [])) : (x >>= f) past = f a past := by
  show (match x past with
    | (.ok a, made) =>
        match f a (past ++ made) with
        | (result, more) => (result, made ++ more)
    | (.error e, made) => (.error e, made)) = _
  rw [hx]
  simp

/-- What the first part reports stays reported. -/
theorem bind_of_report {x : Reporting μ ε α} {f : α → Reporting μ ε β} {past : List μ}
    (hx : (x past).2 ≠ []) : ((x >>= f) past).2 ≠ [] := by
  show (match x past with
    | (.ok a, made) =>
        match f a (past ++ made) with
        | (result, more) => (result, made ++ more)
    | (.error e, made) => (.error e, made)).2 ≠ []
  split
  · rename_i a made hEq
    rw [hEq] at hx
    simp only [ne_eq, List.append_eq_nil_iff, not_and]
    intro hMade
    exact absurd hMade hx
  · rename_i e made hEq
    rwa [hEq] at hx

theorem Extends.bind {x : Reporting μ ε α} {o : Option α} {f : α → Reporting μ ε β}
    {g : α → Option β} (hx : Extends x o) (hf : ∀ a, o = some a → Extends (f a) (g a)) :
    Extends (x >>= f) (o.bind g) := by
  cases o with
  | none => exact fun past => bind_of_report (hx past)
  | some a =>
      have hNext := hf a rfl
      rw [Option.bind_some]
      cases hg : g a with
      | none =>
          intro past
          rw [hg] at hNext
          rw [bind_of_silent (hx past)]
          exact hNext past
      | some b =>
          intro past
          rw [hg] at hNext
          rw [bind_of_silent (hx past)]
          exact hNext past

theorem Extends.map {x : Reporting μ ε α} {o : Option α} (hx : Extends x o) (f : α → β) :
    Extends (x >>= fun a => Pure.pure (f a)) (o.map f) := by
  rw [Option.map_eq_bind]
  exact hx.bind fun a _ => .pure (f a)

/-- Whatever follows a report, there was one. -/
theorem Extends.report (listen : List μ → μ → Option ε) (m : μ) (f : Unit → Reporting μ ε β) :
    Extends (report listen m >>= f) none := by
  intro past
  apply bind_of_report
  unfold Reporting.report
  split <;> simp

/-- Silence with a result is the partial function's value. -/
theorem Extends.silent_iff {x : Reporting μ ε α} {o : Option α} (hx : Extends x o) {past : List μ}
    {a : α} : x past = (.ok a, []) ↔ o = some a := by
  cases o with
  | none =>
      have := hx past
      constructor
      · intro h
        rw [h] at this
        exact absurd rfl this
      · exact nofun
  | some b =>
      rw [hx past]
      simp

/-- There is no report if and only if the partial function is defined. -/
theorem Extends.quiet_iff {x : Reporting μ ε α} {o : Option α} (hx : Extends x o) {past : List μ} :
    (x past).2 = [] ↔ o.isSome = true := by
  cases o with
  | none => simpa using hx past
  | some b => simp [hx past]

/-! ## Scripts -/

theorem bind_assoc {γ : Type} (x : Reporting μ ε α) (f : α → Reporting μ ε β)
    (g : β → Reporting μ ε γ) : (x >>= f) >>= g = x >>= fun a => f a >>= g := by
  funext past
  simp only [bind]
  rcases x past with ⟨e | a, made⟩
  · rfl
  · dsimp only
    rcases f a (past ++ made) with ⟨e | b, more⟩
    · rfl
    · simp only [List.append_assoc]

theorem pure_bind (a : α) (f : α → Reporting μ ε β) : (Pure.pure a >>= f) = f a := by
  funext past
  exact bind_of_silent rfl

/-- Make the reports of a script, and return its result if the listener goes on. -/
def telling (listen : List μ → μ → Option ε) : List μ → α → Reporting μ ε α
  | [], a => Pure.pure a
  | m :: ms, a => report listen m >>= fun _ => telling listen ms a

theorem telling_bind {listen : List μ → μ → Option ε} {a : α} {f : α → Reporting μ ε β}
    {ms' : List μ} {b : β} (hf : f a = telling listen ms' b) (ms : List μ) :
    (telling listen ms a >>= f) = telling listen (ms ++ ms') b := by
  induction ms with
  | nil => rw [telling, pure_bind, hf, List.nil_append]
  | cons m ms ih => rw [telling, bind_assoc, ih, List.cons_append, telling]

/-- The part of a script that a listener hears, and what it answers to the last report. -/
def heard (listen : List μ → μ → Option ε) : List μ → List μ → List μ × Option ε
  | _, [] => ([], none)
  | past, m :: ms =>
      match listen past m with
      | some e => ([m], some e)
      | none => (m :: (heard listen (past ++ [m]) ms).1, (heard listen (past ++ [m]) ms).2)

theorem telling_eq (listen : List μ → μ → Option ε) (a : α) (ms : List μ) :
    ∀ past, telling listen ms a past =
      (match (heard listen past ms).2 with
        | some e => .error e
        | none => .ok a, (heard listen past ms).1) := by
  induction ms with
  | nil => exact fun _ => rfl
  | cons m ms ih =>
      intro past
      rw [telling, heard]
      simp only [bind, report]
      cases hAnswer : listen past m with
      | some e => rfl
      | none => simp only [ih, List.cons_append, List.nil_append]

/-- A listener hears the whole script, or the part up to the first report that it does not go on
from. -/
theorem heard_cases (listen : List μ → μ → Option ε) (ms : List μ) :
    ∀ past,
      (heard listen past ms = (ms, none) ∧
        ∀ before m after, ms = before ++ m :: after → listen (past ++ before) m = none) ∨
      ∃ before m after e, ms = before ++ m :: after ∧
        (∀ before' m' after', before = before' ++ m' :: after' →
          listen (past ++ before') m' = none) ∧
        listen (past ++ before) m = some e ∧ heard listen past ms = (before ++ [m], some e) := by
  induction ms with
  | nil =>
      intro past
      refine .inl ⟨rfl, fun before m after hEq => ?_⟩
      cases before <;> cases hEq
  | cons m ms ih =>
      intro past
      rw [heard]
      cases hAnswer : listen past m with
      | some e =>
          refine .inr ⟨[], m, ms, e, rfl, fun before' m' after' hEq => ?_, ?_, rfl⟩
          · cases before' <;> cases hEq
          · rw [List.append_nil, hAnswer]
      | none =>
          have hCons (before' : List μ) (m' : μ) (after' rest : List μ)
              (hRest : ∀ before, rest = before ++ m' :: after' →
                listen (past ++ [m] ++ before) m' = none)
              (hEq : m :: rest = before' ++ m' :: after') : listen (past ++ before') m' = none := by
            cases before' with
            | nil =>
                cases hEq
                rw [List.append_nil, hAnswer]
            | cons b before' =>
                obtain ⟨rfl, hTail⟩ := List.cons.inj hEq
                have hNone := hRest before' hTail
                rwa [List.append_assoc, List.singleton_append] at hNone
          rcases ih (past ++ [m]) with ⟨hAll, hNone⟩ | ⟨before, m', after, e, rfl, hNone, hSome, hHeard⟩
          · refine .inl ⟨by rw [hAll], fun before' m' after' hEq => ?_⟩
            exact hCons before' m' after' ms (fun before => hNone before m' after') hEq
          · refine .inr ⟨m :: before, m', after, e, rfl, fun before' m'' after' hEq => ?_, ?_, ?_⟩
            · exact hCons before' m'' after' before (fun b => hNone b m'' after') hEq
            · rwa [List.append_assoc, List.singleton_append] at hSome
            · rw [hHeard]
              rfl

section

variable {H : Type} (listen : H → List μ → μ → Option ε)

/-- Whoever listens, the computation is told from one script with the result `a`. -/
def Tells (x : H → Reporting μ ε α) (a : α) : Prop :=
  ∃ ms, ∀ h, x h = telling (listen h) ms a

variable {listen}

theorem Tells.pure (a : α) : Tells listen (fun _ => Pure.pure a) a := ⟨[], fun _ => rfl⟩

theorem Tells.report (m : μ) (a : α) :
    Tells listen (fun h => Reporting.report (listen h) m >>= fun _ => Pure.pure a) a :=
  ⟨[m], fun _ => rfl⟩

theorem Tells.bind {x : H → Reporting μ ε α} {a : α} {f : H → α → Reporting μ ε β} {b : β}
    (hx : Tells listen x a) (hf : Tells listen (fun h => f h a) b) :
    Tells listen (fun h => x h >>= f h) b := by
  obtain ⟨ms, hMs⟩ := hx
  obtain ⟨ms', hMs'⟩ := hf
  refine ⟨ms ++ ms', fun h => ?_⟩
  show x h >>= f h = _
  rw [hMs h]
  exact telling_bind (hMs' h) ms

/-- A listener who always goes on hears the whole script. -/
theorem heard_of_none {listen : List μ → μ → Option ε} (h : ∀ past m, listen past m = none)
    (past ms : List μ) : heard listen past ms = (ms, none) := by
  induction ms generalizing past with
  | nil => rfl
  | cons m ms ih => rw [heard, h past m, ih]

theorem Tells.heard_out {x : H → Reporting μ ε α} {a : α} (hx : Tells listen x a) {h : H}
    (hGoes : ∀ past m, listen h past m = none) :
    ∃ ms, (∀ h, x h = telling (listen h) ms a) ∧ ∀ past, x h past = (.ok a, ms) := by
  obtain ⟨ms, hMs⟩ := hx
  refine ⟨ms, hMs, fun past => ?_⟩
  rw [hMs h, telling_eq, heard_of_none hGoes]

end

end Reporting

end Kexplorer.Lib

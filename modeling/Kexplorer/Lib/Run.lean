import Mathlib.Data.List.Infix
import Mathlib.Logic.Basic

/-!
# Runs of a machine that may fail

A machine takes an event to its next state or to a failure, after which there
are no further steps.  `Always` says that a condition holds of every step of a
run, and `always_congr` replaces one condition by another, given an invariant
that the steps with the second condition keep.

`steps` is for machines that go on by themselves: `steps_descend` bounds how long
one takes that a measure counts down.

`Confined.project` is for machines whose events belong to one of several domains
each: what a domain sees of a run does not depend on the events of the others.
-/

namespace Kexplorer.Lib

universe u

variable {S E F : Type*}

/-! ## Results -/

theorem bind_eq_ok_iff {A B : Type u} {x : Except F A} {f : A → Except F B} {b : B} :
    x >>= f = .ok b ↔ ∃ a, x = .ok a ∧ f a = .ok b := by
  cases x with
  | error fault => simp [bind, Except.bind]
  | ok a => simp [bind, Except.bind]

theorem map_eq_ok_iff {A B : Type*} {x : Except F A} {f : A → B} {b : B} :
    x.map f = .ok b ↔ ∃ a, x = .ok a ∧ f a = b := by
  cases x with
  | error fault => simp [Except.map]
  | ok a => simp [Except.map]

theorem map_eq_error_iff {A B : Type*} {x : Except F A} {f : A → B} {fault : F} :
    x.map f = .error fault ↔ x = .error fault := by
  cases x with
  | error fault' => simp [Except.map]
  | ok a => simp [Except.map]

/-! ## Conditions on all steps -/

/-- The condition holds of every event of the run and the state that it meets. -/
def Always (step : S → E → Except F S) (P : S → E → Prop) : S → List E → Prop
  | _, [] => True
  | s, e :: es => P s e ∧ ∀ s', step s e = .ok s' → Always step P s' es

/-- One more step at the front. -/
theorem Always.step {step : S → E → Except F S} {P : S → E → Prop} {s s' : S} {e : E} {es : List E}
    (h : P s e) (hStep : step s e = .ok s') (hRest : Always step P s' es) :
    Always step P s (e :: es) := by
  refine ⟨h, fun next hNext => ?_⟩
  cases hStep.symm.trans hNext
  exact hRest

theorem always_of_forall {step : S → E → Except F S} {P : S → E → Prop} (h : ∀ s e, P s e)
    (es : List E) : ∀ s, Always step P s es := by
  induction es with
  | nil => exact fun _ => trivial
  | cons e es ih => exact fun s => ⟨h s e, fun s' _ => ih s'⟩

theorem always_of_mem {step : S → E → Except F S} {P : E → Prop} {es : List E} :
    ∀ {s : S}, (∀ e ∈ es, P e) → Always step (fun _ e => P e) s es := by
  induction es with
  | nil => exact fun _ => trivial
  | cons e es ih =>
      intro s h
      exact ⟨h e List.mem_cons_self, fun s' _ => ih fun e' he' => h e' (List.mem_cons_of_mem _ he')⟩

/-- Two conditions that agree wherever the invariant holds of the state and of what is to come hold
of the same runs. -/
theorem always_congr_ahead {step : S → E → Except F S} {P Q : S → E → Prop} {I : S → List E → Prop}
    (hAgree : ∀ s e es, I s (e :: es) → (P s e ↔ Q s e))
    (hKeep : ∀ s e es s', I s (e :: es) → Q s e → step s e = .ok s' → I s' es) (es : List E) :
    ∀ {s : S}, I s es → (Always step P s es ↔ Always step Q s es) := by
  induction es with
  | nil => exact fun _ => Iff.rfl
  | cons e es ih =>
      intro s hInv
      rw [Always, Always, hAgree s e es hInv]
      refine and_congr_right fun hQ => forall_congr' fun s' => ?_
      refine imp_congr_right fun hStep => ih (hKeep s e es s' hInv hQ hStep)

/-- Two conditions that agree on the states of an invariant hold of the same runs. -/
theorem always_congr {step : S → E → Except F S} {P Q : S → E → Prop} {I : S → Prop}
    (hAgree : ∀ s e, I s → (P s e ↔ Q s e))
    (hKeep : ∀ s e s', I s → Q s e → step s e = .ok s' → I s') (es : List E) {s : S} (h : I s) :
    Always step P s es ↔ Always step Q s es :=
  always_congr_ahead (I := fun s _ => I s) (fun s e _ => hAgree s e)
    (fun s e _ s' => hKeep s e s') es h

/-- The state after a run. -/
def run (step : S → E → Except F S) : S → List E → Except F S
  | s, [] => .ok s
  | s, e :: es => step s e >>= fun s' => run step s' es

theorem run_of_step {step : S → E → Except F S} {s s' : S} {e : E} (h : step s e = .ok s')
    (es : List E) : run step s (e :: es) = run step s' es := by
  rw [run, h]
  rfl

theorem run_cons_eq_ok_iff {step : S → E → Except F S} {s s'' : S} {e : E} {es : List E} :
    run step s (e :: es) = .ok s'' ↔ ∃ s', step s e = .ok s' ∧ run step s' es = .ok s'' :=
  bind_eq_ok_iff

/-- A run keeps what every step keeps. -/
theorem run_keeps {step : S → E → Except F S} {I : S → Prop}
    (hKeep : ∀ {s e s'}, I s → step s e = .ok s' → I s') {es : List E} :
    ∀ {s s' : S}, I s → run step s es = .ok s' → I s' := by
  induction es with
  | nil =>
      intro s s' h hRun
      cases hRun
      exact h
  | cons e es ih =>
      intro s s' h hRun
      obtain ⟨next, hStep, hRest⟩ := run_cons_eq_ok_iff.mp hRun
      exact ih (hKeep h hStep) hRest

/-- What holds of the events that go through holds of all events of a run. -/
theorem forall_of_run {step : S → E → Except F S} {P : E → Prop}
    (hStep : ∀ {s e s'}, step s e = .ok s' → P e) {es : List E} :
    ∀ {s s' : S}, run step s es = .ok s' → ∀ e ∈ es, P e := by
  induction es with
  | nil => exact fun _ => List.forall_mem_nil P
  | cons e es ih =>
      intro s s' hRun
      obtain ⟨next, hNext, hRest⟩ := run_cons_eq_ok_iff.mp hRun
      exact List.forall_mem_cons.mpr ⟨hStep hNext, ih hRest⟩

/-- What holds along a run holds along the rest of it. -/
theorem Always.of_run {step : S → E → Except F S} {P : S → E → Prop} {es es' : List E} :
    ∀ {s s' : S}, Always step P s (es ++ es') → run step s es = .ok s' → Always step P s' es' := by
  induction es with
  | nil =>
      intro s s' h hRun
      cases hRun
      exact h
  | cons e es ih =>
      intro s s' h hRun
      obtain ⟨next, hStep, hRest⟩ := run_cons_eq_ok_iff.mp hRun
      exact ih (h.2 next hStep) hRest

/-- A run that can be checked to end where the condition fails. -/
theorem not_always_of_run {step : S → E → Except F S} {P : S → E → Prop} {e : E}
    (check : S → Bool) (hCheck : ∀ s, check s = true → ¬ P s e) (es : List E) {s : S}
    (h : (run step s es).toOption.any check = true) : ¬ Always step P s (es ++ [e]) := by
  intro hAlways
  cases hRun : run step s es with
  | error fault =>
      rw [hRun] at h
      cases h
  | ok s' =>
      rw [hRun] at h
      exact hCheck s' h (hAlways.of_run hRun).1

/-! ## Prefixes -/

theorem run_append {step : S → E → Except F S} {es : List E} (es' : List E) :
    ∀ {s s' : S}, run step s es = .ok s' → run step s (es ++ es') = run step s' es' := by
  induction es with
  | nil =>
      intro s s' h
      cases h
      rfl
  | cons e es ih =>
      intro s s' h
      obtain ⟨next, hStep, hRest⟩ := run_cons_eq_ok_iff.mp h
      rw [List.cons_append, run_of_step hStep]
      exact ih hRest

theorem run_append_eq_ok_iff {step : S → E → Except F S} {es es' : List E} :
    ∀ {s s'' : S}, run step s (es ++ es') = .ok s'' ↔
      ∃ s', run step s es = .ok s' ∧ run step s' es' = .ok s'' := by
  induction es with
  | nil => simp [run]
  | cons e es ih =>
      intro s s''
      rw [List.cons_append, run_cons_eq_ok_iff]
      simp only [ih, run_cons_eq_ok_iff]
      constructor
      · rintro ⟨next, hStep, s', hRun, hRest⟩
        exact ⟨s', ⟨next, hStep, hRun⟩, hRest⟩
      · rintro ⟨s', ⟨next, hStep, hRun⟩, hRest⟩
        exact ⟨next, hStep, s', hRun, hRest⟩

theorem Always.and {step : S → E → Except F S} {P Q : S → E → Prop} {es : List E} :
    ∀ {s : S}, Always step P s es → Always step Q s es →
      Always step (fun s e => P s e ∧ Q s e) s es := by
  induction es with
  | nil => exact fun _ _ => trivial
  | cons e es ih => exact fun hP hQ => ⟨⟨hP.1, hQ.1⟩, fun s' h => ih (hP.2 s' h) (hQ.2 s' h)⟩

/-- Where the condition makes every step go through and keep the invariant, every prefix of the run
goes through and ends in the invariant. -/
theorem Always.runs {step : S → E → Except F S} {P : S → E → Prop} {I : S → Prop}
    (hStep : ∀ s e, I s → P s e → ∃ s', step s e = .ok s' ∧ I s') {es : List E} :
    ∀ {s : S}, Always step P s es → I s → ∀ {before : List E}, before <+: es →
      ∃ s', run step s before = .ok s' ∧ I s' := by
  induction es with
  | nil =>
      intro s _ hInv before hBefore
      rw [List.prefix_nil.mp hBefore]
      exact ⟨s, rfl, hInv⟩
  | cons e es ih =>
      intro s hAlways hInv before hBefore
      cases before with
      | nil => exact ⟨s, rfl, hInv⟩
      | cons e' before =>
          obtain ⟨rfl, hRest⟩ := List.cons_prefix_cons.mp hBefore
          obtain ⟨next, hNext, hInv'⟩ := hStep s _ hInv hAlways.1
          obtain ⟨s', hRun, hInv''⟩ := ih (hAlways.2 next hNext) hInv' hRest
          exact ⟨s', (run_of_step hNext before).trans hRun, hInv''⟩

/-! ## Machines without events -/

/-- The state after some steps of its own. -/
def steps (step : S → Except F S) : Nat → S → Except F S
  | 0, s => .ok s
  | n + 1, s => step s >>= steps step n

/-- Where every step goes through, keeps the invariant and counts the measure down, this many steps
do. -/
theorem steps_descend {step : S → Except F S} {I : S → Prop} {measure : S → Nat}
    (hStep : ∀ s, I s → ∃ s', step s = .ok s' ∧ I s' ∧ measure s' ≤ measure s - 1) (n : Nat) :
    ∀ {s : S}, I s → ∃ s', steps step n s = .ok s' ∧ I s' ∧ measure s' ≤ measure s - n := by
  induction n with
  | zero => exact fun h => ⟨_, rfl, h, Nat.le_refl _⟩
  | succ n ih =>
      intro s h
      obtain ⟨next, hNext, hInv, hLe⟩ := hStep s h
      obtain ⟨s', hSteps, hInv', hLe'⟩ := ih hInv
      exact ⟨s', bind_eq_ok_iff.mpr ⟨next, hNext, hSteps⟩, hInv', by omega⟩

/-! ## Runs of several domains -/

/-- Every event belongs to a domain.  It leaves the views of the others alone, and what it does to
the view of its own depends on this view only. -/
structure Confined {D V : Type} (step : S → E → Except F S) (owner : E → D) (view : D → S → V) :
    Prop where
  frame : ∀ {s e s' d}, step s e = .ok s' → owner e ≠ d → view d s' = view d s
  own : ∀ {s t e s'}, step s e = .ok s' → view (owner e) s = view (owner e) t →
    ∃ t', step t e = .ok t' ∧ view (owner e) s' = view (owner e) t'

/-- A domain's view of a run is that of the run without the events of all others. -/
theorem Confined.project {D V : Type} [DecidableEq D] {step : S → E → Except F S} {owner : E → D}
    {view : D → S → V} (h : Confined step owner view) (d : D) (es : List E) :
    ∀ {s t s' : S}, run step s es = .ok s' → view d s = view d t →
      ∃ t', run step t (es.filter fun e => owner e = d) = .ok t' ∧ view d s' = view d t' := by
  induction es with
  | nil =>
      intro s t s' hRun hView
      cases hRun
      exact ⟨t, rfl, hView⟩
  | cons e es ih =>
      intro s t s' hRun hView
      obtain ⟨next, hStep, hRun⟩ := run_cons_eq_ok_iff.mp hRun
      by_cases hOwner : owner e = d
      · subst hOwner
        obtain ⟨t', hStep', hView'⟩ := h.own hStep hView
        rw [List.filter_cons_of_pos (by simp), run_of_step hStep']
        exact ih hRun hView'
      · rw [List.filter_cons_of_neg (by simpa using hOwner)]
        exact ih hRun ((h.frame hStep hOwner).trans hView)

end Kexplorer.Lib

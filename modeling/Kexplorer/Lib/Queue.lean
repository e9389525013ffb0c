import Mathlib.Logic.Basic

/-!
# A bounded queue

The queue takes what fits and refuses the rest; `run_refines` carries an
implementation's answers from one operation to a run.
-/

namespace Kexplorer.Lib.Queue

variable {α S : Type*}

inductive Op (α : Type*)
  | push (data : List α)
  | pop (size : Nat)
  | reset

/-- What a caller is told. -/
inductive Answer
  | pushed (ok : Bool)
  | popped (size : Nat)
  | done
  deriving DecidableEq

/-- One operation on a queue that holds `bound` elements at most. -/
def apply (bound : Nat) (queue : List α) : Op α → Answer × List α
  | .push data =>
      if queue.length + data.length ≤ bound then (.pushed true, queue ++ data)
      else (.pushed false, queue)
  | .pop size => (.popped (min size queue.length), queue.drop size)
  | .reset => (.done, [])

def run (bound : Nat) : List α → List (Op α) → List Answer × List α
  | queue, [] => ([], queue)
  | queue, op :: ops =>
      let r := apply bound queue op
      let rest := run bound r.2 ops
      (r.1 :: rest.1, rest.2)

/-- The run of an implementation whose operations may fail. -/
def runWith (step : S → Op α → Option (Answer × S)) : S → List (Op α) → Option (List Answer × S)
  | s, [] => some ([], s)
  | s, op :: ops => do
      let (answer, s) ← step s op
      let (answers, s) ← runWith step s ops
      return (answer :: answers, s)

/-- An implementation that answers each operation as the queue does, and stays related to it,
answers every run so. -/
theorem run_refines {bound : Nat} {step : S → Op α → Option (Answer × S)}
    {Rel : S → List α → Prop}
    (hStep : ∀ s queue op, Rel s queue →
      ∃ s', step s op = some ((apply bound queue op).1, s') ∧ Rel s' (apply bound queue op).2)
    (ops : List (Op α)) :
    ∀ {s : S} {queue : List α}, Rel s queue →
      ∃ s', runWith step s ops = some ((run bound queue ops).1, s') ∧
        Rel s' (run bound queue ops).2 := by
  induction ops with
  | nil => exact fun {s _} h => ⟨s, rfl, h⟩
  | cons op ops ih =>
      intro s queue h
      obtain ⟨s₁, hOp, h₁⟩ := hStep s queue op h
      obtain ⟨s₂, hOps, h₂⟩ := ih h₁
      refine ⟨s₂, ?_, h₂⟩
      rw [runWith, hOp]
      show (runWith step s₁ ops >>= _) = _
      rw [hOps]
      rfl

end Kexplorer.Lib.Queue

import Mathlib.Data.List.Basic
import Mathlib.Tactic.Linarith

/-!
# The stateful condition variable

`Condition` with any number of threads that call it in any order.  What happens under the
mutex is one action: a look at the flag with what follows from it, up to the point where the
thread returns or sleeps in the condition variable, and the assignment in `set`.  `set`
notifies after it has released the mutex, so that is an action of its own.  Sleepers also
wake up without a reason, as they may, and those with a duration when their time is up.

`no_lost_wakeup` says that nobody sleeps on a set flag for good, `taken_le` that with
`autoReset` a `set` lets one thread through at most.
-/

namespace Kexplorer.Util

structure Condition where
  signaled : Bool
  autoReset : Bool

namespace Condition

/-- What a thread is doing. -/
inductive Thread
  | idle
  /-- In `set`, before the notification. -/
  | notifying
  /-- In `wait`, before a look at the flag; `expired` if it is the last one. -/
  | looking (timed expired : Bool)
  | asleep (timed : Bool)
  deriving DecidableEq

/-- The condition, its threads, and how often it was set and a wait was successful. -/
structure System where
  condition : Condition
  threads : List Thread
  sets : Nat
  taken : Nat

/-- What a thread can do next.  The other values say what it is doing, and `chosen` who is woken. -/
inductive Action
  | set (i : Nat)
  | notifyOne (i : Nat) (chosen : Option (Nat × Bool))
  | notifyAll (i : Nat)
  | reset (i : Nat)
  | wait (i : Nat) (timed : Bool)
  | look (i : Nat) (timed expired : Bool)
  | wake (i : Nat) (timed : Bool)
  | expire (i : Nat)

/-- `m_cv` wakes all threads that sleep. -/
def Thread.woken : Thread → Thread
  | .asleep timed => .looking timed false
  | thread => thread

def Thread.isAsleep : Thread → Bool
  | .asleep _ => true
  | _ => false

namespace System

/-- `count` threads that have not called anything. -/
def new (autoReset initiallySignaled : Bool) (count : Nat) : System where
  condition := ⟨initiallySignaled, autoReset⟩
  threads := List.replicate count .idle
  sets := 0
  taken := 0

/-- Whether an action is possible. -/
def possible (s : System) : Action → Bool
  | .set i => s.threads[i]? = some .idle
  | .notifyOne i (some (j, timed)) =>
      s.condition.autoReset = true ∧ s.threads[i]? = some .notifying ∧
        s.threads[j]? = some (.asleep timed)
  | .notifyOne i none =>
      s.condition.autoReset = true ∧ s.threads[i]? = some .notifying ∧
        s.threads.any Thread.isAsleep = false
  | .notifyAll i => s.condition.autoReset = false ∧ s.threads[i]? = some .notifying
  | .reset i => s.threads[i]? = some .idle
  | .wait i _ => s.threads[i]? = some .idle
  | .look i timed expired => s.threads[i]? = some (.looking timed expired)
  | .wake i timed => s.threads[i]? = some (.asleep timed)
  | .expire i => s.threads[i]? = some (.asleep true)

/-- A possible action. -/
def act (s : System) : Action → System
  | .set i =>
      { s with
        condition := { s.condition with signaled := true }
        threads := s.threads.set i .notifying
        sets := s.sets + 1 }
  | .notifyOne i (some (j, timed)) =>
      { s with threads := (s.threads.set i .idle).set j (.looking timed false) }
  | .notifyOne i none => { s with threads := s.threads.set i .idle }
  | .notifyAll i => { s with threads := (s.threads.set i .idle).map Thread.woken }
  | .reset _ => { s with condition := { s.condition with signaled := false } }
  | .wait i timed => { s with threads := s.threads.set i (.looking timed false) }
  | .look i timed expired =>
      if s.condition.signaled || expired then
        { s with
          condition :=
            { s.condition with
              signaled := if s.condition.autoReset then false else s.condition.signaled }
          threads := s.threads.set i .idle
          taken := if s.condition.signaled then s.taken + 1 else s.taken }
      else { s with threads := s.threads.set i (.asleep timed) }
  | .wake i timed => { s with threads := s.threads.set i (.looking timed false) }
  | .expire i => { s with threads := s.threads.set i (.looking true true) }

/-- One action.  One that is not possible changes nothing. -/
def step (s : System) (action : Action) : System := if s.possible action then s.act action else s

def run (s : System) (actions : List Action) : System := actions.foldl step s

/-! ## Nobody sleeps on a set flag for good -/

/-- If the flag is set while somebody sleeps, a notification is to come; with `autoReset` there may
also be a thread that is awake and will look at the flag. -/
def NoneLost (s : System) : Prop :=
  s.condition.signaled = true → ∀ timed, .asleep timed ∈ s.threads →
    .notifying ∈ s.threads ∨
      s.condition.autoReset = true ∧ ∃ timed expired, .looking timed expired ∈ s.threads

/-- Another thread is still there. -/
theorem mem_set_of_ne {threads : List Thread} {i : Nat} {old thread : Thread}
    (hOld : threads[i]? = some old) (hMem : thread ∈ threads) (hNe : thread ≠ old) (new : Thread) :
    thread ∈ threads.set i new := by
  obtain ⟨j, hj⟩ := List.getElem?_of_mem hMem
  have hIndex : i ≠ j := by
    rintro rfl
    exact hNe (Option.some.inj (hj.symm.trans hOld))
  exact List.mem_of_getElem? ((List.getElem?_set_ne hIndex).trans hj)

/-- A thread that sleeps after another has changed has slept before. -/
theorem asleep_of_mem_set {threads : List Thread} {i : Nat} {new : Thread} {timed : Bool}
    (h : .asleep timed ∈ threads.set i new) (hNew : new.isAsleep = false) :
    .asleep timed ∈ threads := by
  rcases List.mem_or_eq_of_mem_set h with h | rfl
  · exact h
  · cases hNew

theorem mem_set_self {threads : List Thread} {i : Nat} {old : Thread}
    (hOld : threads[i]? = some old) (new : Thread) : new ∈ threads.set i new :=
  List.mem_set (List.getElem?_eq_some_iff.mp hOld).1 new

/-- A thread that goes on without sleeping takes neither a notification nor a look away from the
others. -/
theorem NoneLost.of_set {s : System} (h : s.NoneLost) {i : Nat} {old new : Thread}
    (hOld : s.threads[i]? = some old) (hNew : new.isAsleep = false) (hNotifying : old ≠ .notifying)
    (hLooking : ∀ timed expired, old ≠ .looking timed expired) :
    NoneLost { s with threads := s.threads.set i new } := by
  intro hSignaled timed hAsleep
  rcases h hSignaled timed (asleep_of_mem_set hAsleep hNew) with
    hMem | ⟨hAuto, timed', expired, hMem⟩
  · exact .inl (mem_set_of_ne hOld hMem (Ne.symm hNotifying) new)
  · exact .inr ⟨hAuto, timed', expired,
      mem_set_of_ne hOld hMem (Ne.symm (hLooking timed' expired)) new⟩

theorem NoneLost.act {s : System} (h : s.NoneLost) {action : Action}
    (hPossible : s.possible action = true) : (s.act action).NoneLost := by
  cases action with
  | set i =>
      have hThread : s.threads[i]? = some .idle := of_decide_eq_true hPossible
      exact fun _ _ _ => .inl (mem_set_self hThread .notifying)
  | notifyOne i chosen =>
      cases chosen with
      | none =>
          obtain ⟨-, -, hNobody⟩ := of_decide_eq_true hPossible
          intro _ timed hAsleep
          have hAny : s.threads.any Thread.isAsleep = true :=
            List.any_eq_true.mpr ⟨_, asleep_of_mem_set hAsleep rfl, rfl⟩
          rw [hNobody] at hAny
          cases hAny
      | some sleeper =>
          obtain ⟨j, timed⟩ := sleeper
          obtain ⟨hAuto, hThread, hSleeper⟩ := of_decide_eq_true hPossible
          have hIndex : i ≠ j := by
            rintro rfl
            cases hThread.symm.trans hSleeper
          have hStill : (s.threads.set i .idle)[j]? = some (.asleep timed) :=
            (List.getElem?_set_ne hIndex).trans hSleeper
          exact fun _ _ _ => .inr ⟨hAuto, timed, false, mem_set_self hStill _⟩
  | notifyAll i =>
      intro _ timed hAsleep
      obtain ⟨thread, -, hThread⟩ := List.mem_map.mp hAsleep
      cases thread <;> cases hThread
  | reset i => exact fun hSignaled => Bool.noConfusion hSignaled
  | wait i timed =>
      exact h.of_set (of_decide_eq_true hPossible) rfl Thread.noConfusion
        fun _ _ => Thread.noConfusion
  | look i timed expired =>
      have hThread : s.threads[i]? = some (.looking timed expired) := of_decide_eq_true hPossible
      unfold System.act
      dsimp only
      split
      · -- a thread that returns from a set flag leaves it set only without `autoReset`
        intro hSignaled timed' hAsleep
        dsimp only at hSignaled
        cases hAuto : s.condition.autoReset with
        | true =>
            rw [hAuto, if_pos rfl] at hSignaled
            cases hSignaled
        | false =>
            rw [hAuto, if_neg Bool.false_ne_true] at hSignaled
            rcases h hSignaled timed' (asleep_of_mem_set hAsleep rfl) with hMem | ⟨hNot, -⟩
            · exact .inl (mem_set_of_ne hThread hMem Thread.noConfusion .idle)
            · rw [hAuto] at hNot
              cases hNot
      · rename_i hUnset
        intro hSignaled
        exact absurd (Bool.or_eq_true_iff.mpr (.inl hSignaled)) hUnset
  | wake i timed =>
      exact h.of_set (of_decide_eq_true hPossible) rfl Thread.noConfusion
        fun _ _ => Thread.noConfusion
  | expire i =>
      exact h.of_set (of_decide_eq_true hPossible) rfl Thread.noConfusion
        fun _ _ => Thread.noConfusion

/-- What the initial state has and every action keeps holds after any actions. -/
theorem run_keeps {I : System → Prop} {allowed : Action → Prop}
    (hAct : ∀ s action, allowed action → s.possible action = true → I s → I (s.act action))
    {actions : List Action} :
    ∀ {s : System}, (∀ action ∈ actions, allowed action) → I s → I (s.run actions) := by
  induction actions with
  | nil => exact fun _ h => h
  | cons action actions ih =>
      intro s hAllowed h
      obtain ⟨hAction, hRest⟩ := List.forall_mem_cons.mp hAllowed
      refine ih (s := s.step action) hRest ?_
      unfold step
      split
      · exact hAct s action hAction ‹_› h
      · exact h

theorem noneLost_new (autoReset initiallySignaled : Bool) (count : Nat) :
    (new autoReset initiallySignaled count).NoneLost :=
  fun _ _ hAsleep => Thread.noConfusion (List.eq_of_mem_replicate hAsleep)

/-- Whether a thread goes on by itself: it notifies, or looks at the flag. -/
def Action.goesOn : Action → Bool
  | .notifyOne _ _ => true
  | .notifyAll _ => true
  | .look _ _ _ => true
  | _ => false

def isNotifying : Thread → Bool
  | .notifying => true
  | _ => false

def isLooking : Thread → Bool
  | .looking _ _ => true
  | _ => false

/-- How often threads can go on by themselves, at most. -/
def work (s : System) : Nat :=
  s.threads.countP isNotifying * (s.threads.length + 1) + s.threads.countP isLooking

/-- Actions by which threads go on by themselves, one after the other. -/
def Proceeds : System → List Action → Prop
  | _, [] => True
  | s, action :: actions =>
      Action.goesOn action = true ∧ s.possible action = true ∧ Proceeds (s.act action) actions

/-- One thread changes, and so does the number of those with a property. -/
theorem countP_set_add {threads : List Thread} {i : Nat} {old : Thread}
    (hOld : threads[i]? = some old) (p : Thread → Bool) (new : Thread) :
    (threads.set i new).countP p + (p old).toNat = threads.countP p + (p new).toNat := by
  induction threads generalizing i with
  | nil => cases hOld
  | cons thread threads ih =>
      cases i with
      | zero =>
          cases hOld
          rw [List.set_cons_zero, List.countP_cons, List.countP_cons]
          cases p old <;> cases p new <;> simp
      | succ i =>
          rw [List.set_cons_succ, List.countP_cons, List.countP_cons]
          have := ih (i := i) hOld
          omega

theorem work_act {s : System} {action : Action} (hGoesOn : Action.goesOn action = true)
    (hPossible : s.possible action = true) : (s.act action).work < s.work := by
  cases action with
  | notifyOne i chosen =>
      cases chosen with
      | none =>
          obtain ⟨-, hThread, -⟩ := of_decide_eq_true hPossible
          have hNotifying := countP_set_add hThread isNotifying .idle
          have hLooking := countP_set_add hThread isLooking .idle
          simp only [isNotifying, isLooking, Bool.toNat_true, Bool.toNat_false, add_zero]
            at hNotifying hLooking
          simp only [work, System.act, List.length_set, hLooking, ← hNotifying, Nat.add_mul]
          omega
      | some sleeper =>
          obtain ⟨j, timed⟩ := sleeper
          obtain ⟨-, hThread, hSleeper⟩ := of_decide_eq_true hPossible
          have hIndex : i ≠ j := by
            rintro rfl
            cases hThread.symm.trans hSleeper
          have hStill : (s.threads.set i .idle)[j]? = some (.asleep timed) :=
            (List.getElem?_set_ne hIndex).trans hSleeper
          have hSize : 0 < s.threads.length :=
            Nat.zero_lt_of_lt (List.getElem?_eq_some_iff.mp hThread).1
          have hNotifying := countP_set_add hThread isNotifying .idle
          have hLooking := countP_set_add hThread isLooking .idle
          have hNotifying' := countP_set_add hStill isNotifying (.looking timed false)
          have hLooking' := countP_set_add hStill isLooking (.looking timed false)
          simp only [isNotifying, isLooking, Bool.toNat_true, Bool.toNat_false, add_zero]
            at hNotifying hLooking hNotifying' hLooking'
          simp only [work, System.act, List.length_set, hLooking, hLooking', hNotifying',
            ← hNotifying, Nat.add_mul]
          omega
  | notifyAll i =>
      obtain ⟨-, hThread⟩ := of_decide_eq_true hPossible
      have hNotifying := countP_set_add hThread isNotifying .idle
      simp only [isNotifying, Bool.toNat_true, Bool.toNat_false, add_zero] at hNotifying
      have hWoken : ((s.threads.set i .idle).map Thread.woken).countP isNotifying =
          (s.threads.set i .idle).countP isNotifying := by
        rw [List.countP_map]
        exact List.countP_congr fun thread _ => by cases thread <;> rfl
      have hLooking := List.countP_le_length (p := isLooking)
        (l := (s.threads.set i .idle).map Thread.woken)
      simp only [List.length_map, List.length_set] at hLooking
      simp only [work, System.act, List.length_map, List.length_set, hWoken, ← hNotifying,
        Nat.add_mul]
      omega
  | look i timed expired =>
      have hThread : s.threads[i]? = some (.looking timed expired) := of_decide_eq_true hPossible
      have hLeaves : ∀ new : Thread, isNotifying new = false → isLooking new = false →
          (s.threads.set i new).countP isNotifying * (s.threads.length + 1) +
            (s.threads.set i new).countP isLooking < s.work := by
        intro new hNot hNot'
        have hNotifying := countP_set_add hThread isNotifying new
        have hLooking := countP_set_add hThread isLooking new
        rw [hNot] at hNotifying
        rw [hNot'] at hLooking
        simp only [isNotifying, isLooking, Bool.toNat_true, Bool.toNat_false, add_zero]
          at hNotifying hLooking
        rw [work, hNotifying, ← hLooking]
        omega
      unfold System.act
      dsimp only
      split
      · simpa [work] using hLeaves .idle rfl rfl
      · simpa [work] using hLeaves (.asleep timed) rfl rfl
  | _ => cases hGoesOn

theorem length_le_work (actions : List Action) :
    ∀ {s : System}, Proceeds s actions → actions.length ≤ s.work := by
  induction actions with
  | nil => exact fun _ => Nat.zero_le _
  | cons action actions ih =>
      intro s h
      obtain ⟨hGoesOn, hPossible, hRest⟩ := h
      rw [List.length_cons]
      exact Nat.lt_of_le_of_lt (ih hRest) (work_act hGoesOn hPossible)

/-- Where nobody can go on, nobody is about to notify or to look. -/
theorem notMem_of_stuck {s : System} (h : ∀ action, ¬ Proceeds s [action]) :
    .notifying ∉ s.threads ∧ ∀ timed expired, .looking timed expired ∉ s.threads := by
  refine ⟨fun hMem => ?_, fun timed expired hMem => ?_⟩
  · obtain ⟨i, hThread⟩ := List.getElem?_of_mem hMem
    cases hAuto : s.condition.autoReset with
    | false => exact h (.notifyAll i) ⟨rfl, decide_eq_true ⟨hAuto, hThread⟩, trivial⟩
    | true =>
        cases hNobody : s.threads.any Thread.isAsleep with
        | false =>
            exact h (.notifyOne i none) ⟨rfl, decide_eq_true ⟨hAuto, hThread, hNobody⟩, trivial⟩
        | true =>
            obtain ⟨thread, hSleeper, hAsleep⟩ := List.any_eq_true.mp hNobody
            obtain ⟨j, hj⟩ := List.getElem?_of_mem hSleeper
            cases thread with
            | asleep timed =>
                exact h (.notifyOne i (some (j, timed)))
                  ⟨rfl, decide_eq_true ⟨hAuto, hThread, hj⟩, trivial⟩
            | _ => cases hAsleep
  · obtain ⟨i, hThread⟩ := List.getElem?_of_mem hMem
    exact h (.look i timed expired) ⟨rfl, decide_eq_true hThread, trivial⟩

/-- Where nobody can go on and the flag is set, every call has returned. -/
theorem NoneLost.idle {s : System} (h : s.NoneLost) (hStuck : ∀ action, ¬ Proceeds s [action])
    (hSignaled : s.condition.signaled = true) : ∀ thread ∈ s.threads, thread = .idle := by
  obtain ⟨hNotifying, hLooking⟩ := notMem_of_stuck hStuck
  intro thread hMem
  cases thread with
  | idle => rfl
  | notifying => exact absurd hMem hNotifying
  | looking timed expired => exact absurd hMem (hLooking timed expired)
  | asleep timed =>
      rcases h hSignaled timed hMem with hMem' | ⟨-, timed', expired, hMem'⟩
      · exact absurd hMem' hNotifying
      · exact absurd hMem' (hLooking timed' expired)

theorem noneLost_run (autoReset initiallySignaled : Bool) (count : Nat) (actions : List Action) :
    ((new autoReset initiallySignaled count).run actions).NoneLost :=
  @run_keeps NoneLost (fun _ => True) (fun _ _ _ hPossible h => h.act hPossible) actions
    (new autoReset initiallySignaled count) (fun _ _ => trivial)
    (noneLost_new autoReset initiallySignaled count)

/-- No wake-up is lost: after any actions of any threads, the threads can go on by themselves only
so often, and when they have, nobody is left in a call if the flag is set. -/
theorem no_lost_wakeup (autoReset initiallySignaled : Bool) (count : Nat) (actions : List Action) :
    let s := (new autoReset initiallySignaled count).run actions
    (∀ more, Proceeds s more → more.length ≤ s.work) ∧
      ((∀ action, ¬ Proceeds s [action]) → s.condition.signaled = true →
        ∀ thread ∈ s.threads, thread = .idle) :=
  ⟨fun more h => length_le_work more h,
    (noneLost_run autoReset initiallySignaled count actions).idle⟩

/-! ## What a `set` is good for -/

/-- What was taken, and the flag, have been paid for. -/
def Paid (initially : Nat) (s : System) : Prop :=
  s.condition.autoReset = true ∧ s.taken + s.condition.signaled.toNat ≤ s.sets + initially

theorem Paid.act {initially : Nat} {s : System} (h : s.Paid initially) (action : Action) :
    (s.act action).Paid initially := by
  obtain ⟨hAuto, hPaid⟩ := h
  cases action with
  | set i =>
      refine ⟨hAuto, ?_⟩
      simp only [System.act, Bool.toNat_true]
      omega
  | reset i =>
      refine ⟨hAuto, ?_⟩
      simp only [System.act, Bool.toNat_false]
      omega
  | look i timed expired =>
      unfold System.act
      dsimp only
      split
      · refine ⟨hAuto, ?_⟩
        cases hSignaled : s.condition.signaled <;> simp [hAuto, hSignaled] at hPaid ⊢ <;> omega
      · exact ⟨hAuto, hPaid⟩
  | notifyOne i chosen =>
      cases chosen with
      | none => exact ⟨hAuto, hPaid⟩
      | some sleeper => exact ⟨hAuto, hPaid⟩
  | _ => exact ⟨hAuto, hPaid⟩

/-- With `autoReset` no more waits are successful than the flag was set, and one less while it is
set. -/
theorem taken_le (initiallySignaled : Bool) (count : Nat) (actions : List Action) :
    let s := (new true initiallySignaled count).run actions
    s.taken + s.condition.signaled.toNat ≤ s.sets + initiallySignaled.toNat := by
  have hNew : (new true initiallySignaled count).Paid initiallySignaled.toNat := by
    refine ⟨rfl, ?_⟩
    simp [new]
  exact (@run_keeps (Paid initiallySignaled.toNat) (fun _ => True)
    (fun _ action _ _ h => h.act action)
    actions _ (fun _ _ => trivial) hNew).2

/-- Without `autoReset` the flag stays set once it was. -/
def Open (s : System) : Prop :=
  s.condition.autoReset = false ∧ (0 < s.sets → s.condition.signaled = true)

theorem Open.act {s : System} (h : s.Open) {action : Action} (hNoReset : ∀ i, action ≠ .reset i) :
    (s.act action).Open := by
  obtain ⟨hAuto, hOpen⟩ := h
  cases action with
  | set i => exact ⟨hAuto, fun _ => rfl⟩
  | reset i => exact absurd rfl (hNoReset i)
  | look i timed expired =>
      unfold System.act
      dsimp only
      split
      · exact ⟨hAuto, by rwa [hAuto]⟩
      · exact ⟨hAuto, hOpen⟩
  | notifyOne i chosen =>
      cases chosen with
      | none => exact ⟨hAuto, hOpen⟩
      | some sleeper => exact ⟨hAuto, hOpen⟩
  | _ => exact ⟨hAuto, hOpen⟩

/-- A condition like the one that `main` waits for, without `autoReset` and never reset: once it is
set, everybody who waits or will wait returns. -/
theorem released (initiallySignaled : Bool) (count : Nat) {actions : List Action}
    (hNoReset : ∀ i, .reset i ∉ actions) :
    let s := (new false initiallySignaled count).run actions
    0 < s.sets → (∀ more, Proceeds s more → more.length ≤ s.work) ∧
      ((∀ action, ¬ Proceeds s [action]) → ∀ thread ∈ s.threads, thread = .idle) := by
  intro s hSet
  have hNew : (new false initiallySignaled count).Open := ⟨rfl, fun h => absurd h (Nat.lt_irrefl 0)⟩
  have hOpen : s.Open := @run_keeps Open (fun action => ∀ i, action ≠ .reset i)
    (fun _ _ hAllowed _ h => h.act hAllowed) actions _
    (fun action hAction i hEq => hNoReset i (hEq ▸ hAction)) hNew
  exact ⟨fun more h => length_le_work more h, fun hStuck =>
    (noneLost_run false initiallySignaled count actions).idle hStuck (hOpen.2 hSet)⟩

theorem released_twoThreads :
    let s := (new false false 2).run [.wait 0 false, .look 0 false false, .set 1]
    (∀ more, Proceeds s more → more.length ≤ s.work) ∧
      ((∀ action, ¬ Proceeds s [action]) → ∀ thread ∈ s.threads, thread = .idle) :=
  released false 2 (by simp) (by decide)

end System

end Condition

end Kexplorer.Util

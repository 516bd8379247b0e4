import Mathlib

/-!
# Labelled transition systems

The states that a system can reach, and the one induction that every invariant
of this development goes through.
-/

namespace Restpose.Transition

variable {State Event : Type*} {initial : State → Prop}
  {step : State → Event → State → Prop}

/-- The states reached from an initial state by finitely many steps. -/
inductive Reachable (initial : State → Prop)
    (step : State → Event → State → Prop) : State → Prop where
  | initial {state : State} (hinitial : initial state) :
      Reachable initial step state
  | step {state next : State} {event : Event}
      (hreachable : Reachable initial step state)
      (hstep : step state event next) : Reachable initial step next

variable {state : State}

/-- What holds initially and is kept by every step from a reachable state holds
in every reachable state. -/
theorem Reachable.invariant {property : State → Prop}
    (hinitial : ∀ state, initial state → property state)
    (hstep : ∀ state event next, Reachable initial step state →
      property state → step state event next → property next)
    (hreachable : Reachable initial step state) : property state := by
  induction hreachable with
  | initial hstart => exact hinitial _ hstart
  | step hbefore hnext ih => exact hstep _ _ _ hbefore ih hnext

/-- The states that follow a state after finitely many steps. -/
inductive Steps (step : State → Event → State → Prop) (start : State) :
    State → Prop where
  | refl : Steps step start start
  | tail {state next : State} {event : Event}
      (hsteps : Steps step start state) (hstep : step state event next) :
      Steps step start next

variable {start : State}

theorem Steps.trans {middle : State} (hfirst : Steps step start middle)
    (hsecond : Steps step middle state) : Steps step start state := by
  induction hsecond with
  | refl => exact hfirst
  | tail _ hstep ih => exact .tail ih hstep

theorem Reachable.steps (hreachable : Reachable initial step start)
    (hsteps : Steps step start state) : Reachable initial step state := by
  induction hsteps with
  | refl => exact hreachable
  | tail _ hstep ih => exact .step ih hstep

/-- What holds at the start and is kept by every step holds after any number
of steps. -/
theorem Steps.invariant {property : State → Prop} (hstart : property start)
    (hstep : ∀ state event next, Steps step start state →
      property state → step state event next → property next)
    (hsteps : Steps step start state) : property state := by
  induction hsteps with
  | refl => exact hstart
  | tail hbefore hnext ih => exact hstep _ _ _ hbefore ih hnext

end Restpose.Transition

/-! # Runs of a transition function

States reached by a function of a state and an event, where a predicate tells which events
may happen in which state.
-/

namespace Runs

variable {S E : Type} {step : S → E → S} {allowed : S → E → Prop} {start state final : S}

inductive Reaches (step : S → E → S) (allowed : S → E → Prop) (start : S) : S → Prop
  | refl : Reaches step allowed start start
  | next {state : S} (run : Reaches step allowed start state) (event : E) (permitted : allowed state event) :
      Reaches step allowed start (step state event)

/-- What holds at the start and is kept by each event that may happen holds all along. -/
theorem Reaches.invariant (holds : S → Prop) (initially : holds start)
    (kept : ∀ state event, holds state → allowed state event → holds (step state event))
    (run : Reaches step allowed start final) : holds final := by
  induction run with
  | refl => exact initially
  | next _ event permitted ih => exact kept _ event ih permitted

end Runs

import SlotStore.Error
import SlotStore.Event

/-!
# Outcomes

A call on an allocator or a list gives an answer, leaves a state behind and reports events.
-/

namespace SlotStore

/-- What a call leaves behind. -/
structure Outcome (σ ρ : Type) where
  state : σ
  /-- What the call answers, or why it did not succeed. -/
  answer : Except Fault ρ
  /-- The events of the call, in order. -/
  events : List Event := []

namespace Outcome

variable {σ ρ : Type}

def failed (state : σ) (e : Error) (events : List Event) : Outcome σ ρ :=
  ⟨state, .error (.error e), events⟩

def refused (state : σ) (r : Refusal) : Outcome σ ρ :=
  ⟨state, .error (.refusal r), []⟩

end Outcome

end SlotStore

import FaultRelay.Handler.Selection
import FaultRelay.Unwinding

/-! Handling blocks. Each opens the payload types of its handlers, runs a body, and dispatches the
failure it ends with; the slots stay open until the selected handler has returned. -/
namespace FaultRelay

variable {V : Vocabulary} {σ α ρ : Type} [Host V σ]

def handleAll (body : Act V σ (Except FailureId α)) (total : TotalChain V σ α) : Act V σ α :=
  (Scope.forHandlers total.chain.handlers).during fun _ => do
    match ← body with
    | .ok value => return value
    | .error id => total.dispatch id

/-- Handles the failures that `body` returns and some handler accepts; any other is returned. -/
def handleSome (body : Act V σ (Except FailureId α)) (chain : Chain V σ (Except FailureId α)) :
    Act V σ (Except FailureId α) :=
  (Scope.forHandlers chain.handlers).during fun _ => do
    match ← body with
    | .ok value => return .ok value
    | .error id =>
        match ← chain.dispatch id with
        | .handled result => return result
        | .unmatched id => return .error id

def catchUnwinding (body : Act V σ α) (total : TotalChain V σ α) : Act V σ α :=
  (Scope.catching total.chain).during fun _ => do
    match ← body.attempt with
    | .ok value => return value
    | .error object => total.dispatch (← quietly object.keep)

def catchBoth (body : Act V σ (Except FailureId α)) (total : TotalChain V σ α) : Act V σ α :=
  (Scope.catching total.chain).during fun _ => do
    match ← body.attempt with
    | .ok (.ok value) => return value
    | .ok (.error id) => total.dispatch id
    | .error object => total.dispatch (← quietly object.keep)

/-- A block that stops every unwinding and goes on with `settle` where the body returns. -/
def catching (settle : α → Act V σ ρ) (body : Act V σ α) (total : TotalChain V σ ρ) : Act V σ ρ :=
  (Scope.catching total.chain).during fun _ => do
    match ← body.attempt with
    | .ok value => settle value
    | .error object => total.dispatch (← quietly object.keep)

theorem catchUnwinding_eq (body : Act V σ α) (total : TotalChain V σ α) :
    catchUnwinding body total = catching pure body total := rfl

theorem catchBoth_eq (body : Act V σ (Except FailureId α)) (total : TotalChain V σ α) :
    catchBoth body total =
      catching (fun
        | .ok value => pure value
        | .error id => total.dispatch id) body total := by
  unfold catchBoth catching
  congr 1
  funext _
  refine bind_congr fun ended => ?_
  rcases ended with object | (id | value) <;> rfl

end FaultRelay

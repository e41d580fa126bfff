import FaultRelay.Handler.Chain

/-! Selection of the first handler, in the order of the chain, that accepts a failure. -/
namespace FaultRelay

inductive Outcome (ρ : Type) where
  | handled (value : ρ)
  | unmatched (id : FailureId)

namespace Outcome

variable {ρ : Type}

def isHandled : Outcome ρ → Bool
  | handled _ => true
  | unmatched _ => false

def handled? : Outcome ρ → Option ρ
  | handled value => some value
  | unmatched _ => none

def toExcept : Outcome ρ → Except FailureId ρ
  | handled value => .ok value
  | unmatched id => .error id

end Outcome

variable {V : Vocabulary} {σ ρ : Type}

def brokenText (index : Nat) (signature : String) (id : FailureId) : String :=
  "handler " ++ toString index ++ " \x60" ++ signature ++ "\x60 matched " ++ id.text ++
    " but an argument could not be produced"

def uncaughtText (id : FailureId) : String := "the catch-all handler did not match " ++ id.text

def dispatchFrom [Host V σ] (case : Case V) :
    Nat → List (Handler V σ ρ) → Act V σ (Outcome ρ)
  | _, [] => do
      quietly (emit (.unmatched case.id))
      return .unmatched case.id
  | index, handler :: rest => do
      if ← handler.accepts case then
        quietly (emit (.selected case.id index handler.signature))
        match ← handler.answer? case with
        | some value => return .handled value
        | none => Act.unwind (.message (brokenText index handler.signature case.id))
      else
        dispatchFrom case (index + 1) rest

def Chain.dispatch [Host V σ] (chain : Chain V σ ρ) (id : FailureId) : Act V σ (Outcome ρ) :=
  dispatchFrom ⟨id, chain.interest⟩ 0 chain.handlers

/-- A total chain answers with a value. Only an application's own argument can keep its last handler
from accepting. -/
def TotalChain.dispatch [Host V σ] (total : TotalChain V σ ρ) (id : FailureId) : Act V σ ρ := do
  match ← total.chain.dispatch id with
  | .handled value => return value
  | .unmatched id => Act.unwind (.message (uncaughtText id))

end FaultRelay

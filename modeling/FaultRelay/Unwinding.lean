import FaultRelay.Scope

/-! The border between failures that are returned and failures that unwind. -/
namespace FaultRelay

variable {V : Vocabulary} {σ α : Type}

def FailureId.raise [Observer σ] (id : FailureId) : Act V σ α := do
  quietly (emit (.raising id))
  Act.unwind (.unwound id)

def raise [Host V σ] (payloads : List (Payload V)) : Act V σ α := do
  (← quietly (newFailure payloads)).raise

/-- The identity of a thrown object: the one it carries, else a new one. -/
def Thrown.identify (object : Thrown V) : Quiet V σ FailureId :=
  match object.carried? with
  | some id => pure id
  | none => FailureId.mint

def Thrown.keep [Host V σ] (object : Thrown V) : Quiet V σ FailureId := do
  let id ← object.identify
  emit (.caught id)
  discard (record .thrown object id)
  return id

theorem Thrown.identify_unwound (id : FailureId) :
    (Thrown.unwound id : Thrown V).identify (σ := σ) = pure id := rfl

end FaultRelay

import FaultRelay.Recording

/-! Guards that attach context to a failure passing by. A guard fires when its frame is left after
the thread minted an identity, or started to unwind, since the guard was made. The context is data:
payloads made in advance, or the code of a callback, which runs only if its type is open. How code
is run is up to whoever drops the guard, so that a guard can be stored. -/
namespace FaultRelay

inductive Context (V : Vocabulary) (κ : Key V → Type) where
  | prepared (payloads : List (Payload V))
  | deferred (key : Key V) (code : κ key)

structure Guard (V : Vocabulary) (κ : Key V → Type) where
  context : Context V κ
  /-- The current identity of the thread when the guard was made. -/
  baseline : Option FailureId
  wasUnwinding : Bool

namespace Guard

variable {V : Vocabulary} {σ : Type} {κ : Key V → Type}

def unwinding : Quiet V σ Bool := return 0 < (← Quiet.thread).unwindings

def arm (context : Context V κ) : Quiet V σ (Guard V κ) := do
  return ⟨context, ← FailureId.current, ← unwinding⟩

def form (guard : Guard V κ) : String :=
  Text.fields "OnError" [("armed", "true"),
    ("baseline", Text.optional (guard.baseline.map FailureId.form))]

/-- The failure that the guard would record for now. While the thread unwinds without a new
identity it is the one that will be minted next. -/
def target (guard : Guard V κ) : Quiet V σ (Option FailureId) := do
  let current ← FailureId.current
  if current ≠ guard.baseline then
    return current
  else if (← unwinding) && !guard.wasUnwinding then
    return some (← FailureId.reserve)
  else
    return none

def dismiss [Host V σ] (guard : Guard V κ) : Quiet V σ Unit :=
  match guard.context with
  | .prepared payloads => releaseAll payloads
  | .deferred _ _ => pure ()

def fire [Host V σ] (run : (key : Key V) → κ key → Act V σ key.Value) (context : Context V κ)
    (id : FailureId) : Act V σ Unit :=
  match context with
  | .prepared payloads => quietly (recordAll payloads id)
  | .deferred key code => do
      if ← quietly (Slot.isOpen key) then
        let value ← run key code
        discard (quietly (record key value id))
      else
        quietly (noteStray key id)

def drop [Host V σ] (run : (key : Key V) → κ key → Act V σ key.Value) (guard : Guard V κ) :
    Act V σ Unit := do
  match ← quietly guard.target with
  | some id => fire run guard.context id
  | none => quietly guard.dismiss

end Guard

end FaultRelay

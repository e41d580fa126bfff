import FaultRelay.World

/-! The application around the relay: an observer of events, and the effects of destroying a value
and of the application's own arguments. None of these unwinds; what records do where the end of a
value may is kept apart (`Demise`). -/
namespace FaultRelay

class Observer (σ : Type) where
  observe : Event → σ → σ

structure Case (V : Vocabulary) where
  id : FailureId
  interest : Interest V

class Host (V : Vocabulary) (σ : Type) extends Observer σ where
  destroy : (kind : V.Kind) → V.Value kind → Quiet V σ Unit
  declared : V.Custom → Nat → Quiet V σ Unit
  available : V.Custom → Case V → Quiet V σ Bool
  produced : V.Custom → Quiet V σ (Option V.Product)

variable {V : Vocabulary} {σ : Type}

def emit [Observer σ] (event : Event) : Quiet V σ Unit := Quiet.modifyHost (Observer.observe event)

/-- The end of a value. The library's own values end without effect. -/
def release [Host V σ] : (key : Key V) → key.Value → Quiet V σ Unit
  | .app kind, value => Host.destroy kind value
  | .tally, _ | .thrown, _ => pure ()

def releaseAll [Host V σ] : List (Payload V) → Quiet V σ Unit
  | [] => pure ()
  | payload :: rest => do
      release payload.key payload.value
      releaseAll rest

namespace Settings

def adopt [Observer σ] (settings : Settings) : Quiet V σ Bool := do
  match (← get).process.settings with
  | some _ => return false
  | none =>
      modify fun world => { world with process.settings := some settings }
      emit (.installed settings)
      return true

/-- Installs the settings. If others are in force already, these are given back. -/
def install [Observer σ] (settings : Settings) : Quiet V σ (Except Settings Unit) := do
  if ← settings.adopt then return .ok () else return .error settings

def fromEnvironment : Quiet V σ Settings := return ofVariable (← get).process.environment

/-- The settings in force; the first reader decides them by the environment. -/
def inForce : Quiet V σ Settings := do
  match (← get).process.settings with
  | some settings => return settings
  | none =>
      let settings ← fromEnvironment
      modify fun world => { world with process.settings := some settings }
      return settings

end Settings

end FaultRelay

import FaultRelay.Minting
import FaultRelay.Slot.Access

/-! Recording payloads. A payload that finds no open slot ends at once; if some open scope of the
thread asked for it, and the settings allow it, the failure's tally counts the stray. -/
namespace FaultRelay

variable {V : Vocabulary} {σ : Type}

/-- Whether strays are being counted. Asking decides the settings. -/
def tallying : Quiet V σ Bool := do
  let settings ← Settings.inForce
  return settings.diagnostics && 0 < (← Quiet.thread).tallying

def countStray (name : String) (id : Nat) : Option (Nat × Tally) → Option (Nat × Tally)
  | some (other, tally) => if other = id then some (id, tally.more) else some (id, .one name)
  | none => some (id, .one name)

def noteStray [Observer σ] (key : Key V) (id : FailureId) : Quiet V σ Unit := do
  emit (.strayed key.name id)
  if ← tallying then
    discard (Slot.editTop .tally (countStray key.name id.raw))

/-- Records `value` where the ends of values are given by `ending`. -/
def recordEnding [Observer σ] (key : Key V) (ending : key.Value → Quiet V σ Unit)
    (value : key.Value) (id : FailureId) : Quiet V σ Bool := do
  match ← Slot.put key id.raw value with
  | .stored previous =>
      match previous with
      | some value => ending value
      | none => pure ()
      return true
  | .rejected value =>
      ending value
      noteStray key id
      return false

/-- Records `value` for the failure; false if no slot of its type is open. -/
def record [Host V σ] (key : Key V) (value : key.Value) (id : FailureId) : Quiet V σ Bool :=
  recordEnding key (release key) value id

def recordAll [Host V σ] : List (Payload V) → FailureId → Quiet V σ Unit
  | [], _ => pure ()
  | payload :: rest, id => do
      discard (record payload.key payload.value id)
      recordAll rest id

def newFailure [Host V σ] (payloads : List (Payload V)) : Quiet V σ FailureId := do
  let id ← FailureId.mint
  recordAll payloads id
  return id

end FaultRelay

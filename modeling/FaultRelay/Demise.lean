import FaultRelay.Guard
import FaultRelay.Parcel
import FaultRelay.Unwinding

/-! Recording where the end of a value may unwind. Such an end leaves the record at once: the stray
is then neither told nor counted, and the settings are not asked. Payloads that were to be recorded
after it end on the way out. Where ends return, this is how the relay records. -/
namespace FaultRelay

abbrev Demise (V : Vocabulary) (σ : Type) := (key : Key V) → key.Value → Act V σ Unit

namespace Demise

variable {V : Vocabulary} {σ α : Type} {κ : Key V → Type}

/-- Values that are dropped together end one after the other, whether or not one of them unwinds. -/
def all (demise : Demise V σ) : List (Payload V) → Act V σ Unit
  | [] => pure ()
  | payload :: rest => (demise payload.key payload.value).ensuring (demise.all rest)

section Recording

variable [Observer σ]

def record (demise : Demise V σ) (key : Key V) (value : key.Value) (id : FailureId) :
    Act V σ Bool := do
  match ← quietly (Slot.put key id.raw value) with
  | .stored none => return true
  | .stored (some previous) =>
      demise key previous
      return true
  | .rejected refused =>
      demise key refused
      quietly (noteStray key id)
      return false

def recordAll (demise : Demise V σ) : List (Payload V) → FailureId → Act V σ Unit
  | [], _ => pure ()
  | payload :: rest, id => do
      discard ((demise.record payload.key payload.value id).onUnwinding (demise.all rest))
      demise.recordAll rest id

def newFailure (demise : Demise V σ) (payloads : List (Payload V)) : Act V σ FailureId := do
  let id ← quietly FailureId.mint
  demise.recordAll payloads id
  return id

def unpack (demise : Demise V σ) (parcel : Parcel V) : Act V σ FailureId := do
  quietly (emit (.replaying parcel.id parcel.size))
  demise.recordAll parcel.payloads parcel.id
  return parcel.id

def keep (demise : Demise V σ) (object : Thrown V) : Act V σ FailureId := do
  let id ← quietly object.identify
  quietly (emit (.caught id))
  discard (demise.record .thrown object id)
  return id

def dismiss (demise : Demise V σ) (guard : Guard V κ) : Act V σ Unit :=
  match guard.context with
  | .prepared payloads => demise.all payloads
  | .deferred _ _ => pure ()

def fire (demise : Demise V σ) (run : (key : Key V) → κ key → Act V σ key.Value)
    (context : Context V κ) (id : FailureId) : Act V σ Unit :=
  match context with
  | .prepared payloads => demise.recordAll payloads id
  | .deferred key code => do
      if ← quietly (Slot.isOpen key) then
        let value ← run key code
        discard (demise.record key value id)
      else
        quietly (noteStray key id)

def drop (demise : Demise V σ) (run : (key : Key V) → κ key → Act V σ key.Value)
    (guard : Guard V κ) : Act V σ Unit := do
  match ← quietly guard.target with
  | some id => demise.fire run guard.context id
  | none => demise.dismiss guard

end Recording

section Own

variable [Host V σ]

def own : Demise V σ := fun key value => quietly (release key value)

end Own

end Demise

end FaultRelay

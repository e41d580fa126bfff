import FaultRelay.Scope

/-! A failure packed together with its payloads, so that it can be recorded again elsewhere. -/
namespace FaultRelay

structure Parcel (V : Vocabulary) where
  id : FailureId
  payloads : List (Payload V)

namespace Parcel

variable {V : Vocabulary} {σ α : Type}

def size (parcel : Parcel V) : Nat := parcel.payloads.length

def isEmpty (parcel : Parcel V) : Bool := parcel.payloads.isEmpty

def names (parcel : Parcel V) : List String := parcel.payloads.map fun payload => payload.key.name

def text (parcel : Parcel V) : String :=
  "captured " ++ parcel.id.text ++ " with " ++ toString parcel.size ++ " payload(s)"

def form (parcel : Parcel V) : String :=
  Text.fields "Captured" [("id", parcel.id.form),
    ("payloads", Text.listed (parcel.names.map Text.quoted))]

def collect (id : FailureId) : List (Key V) → Quiet V σ (List (Payload V))
  | [] => return []
  | key :: rest => do
      let taken ← Slot.takeFor key id.raw
      let later ← collect id rest
      match taken with
      | some value => return ⟨key, value⟩ :: later
      | none => return later

/-- Runs `body` with slots for `keys` open and packs a failure that it returns. -/
def pack [Host V σ] (keys : List (Key V)) (body : Act V σ (Except FailureId α)) :
    Act V σ (Except (Parcel V) α) :=
  Scope.during ⟨.ofKeys keys⟩ fun _ => do
    match ← body with
    | .ok value => return .ok value
    | .error id => return .error ⟨id, ← quietly (collect id keys)⟩

def unpack [Host V σ] (parcel : Parcel V) : Quiet V σ FailureId := do
  emit (.replaying parcel.id parcel.size)
  recordAll parcel.payloads parcel.id
  return parcel.id

def drop [Host V σ] (parcel : Parcel V) : Quiet V σ Unit := releaseAll parcel.payloads

end Parcel

end FaultRelay

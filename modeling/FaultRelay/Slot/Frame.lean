import FaultRelay.Slot.Token
import FaultRelay.Text.Form

/-! A frame holds at most one value, tagged with the raw number of the failure it belongs to. -/
namespace FaultRelay

structure Frame (α : Type) where
  owner : Token
  /-- How often the owner opened the frame and has not closed it yet. -/
  refs : Nat
  held : Option (Nat × α)

namespace Frame

variable {α : Type}

def fresh (owner : Token) : Frame α := ⟨owner, 1, none⟩

def id (frame : Frame α) : Option Nat := frame.held.map Prod.fst

def holds (frame : Frame α) (id : Nat) : Bool := frame.id == some id

def value? (frame : Frame α) : Option α := frame.held.map Prod.snd

def valueFor (frame : Frame α) (id : Nat) : Option α :=
  if frame.holds id then frame.value? else none

def put (frame : Frame α) (id : Nat) (value : α) : Frame α :=
  { frame with held := some (id, value) }

def cleared (frame : Frame α) : Frame α := { frame with held := none }

/-- The frame after the value tagged with `id` was taken; any other value stays. -/
def without (frame : Frame α) (id : Nat) : Frame α :=
  if frame.holds id then frame.cleared else frame

theorem valueFor_without (frame : Frame α) (id : Nat) : (frame.without id).valueFor id = none := by
  by_cases held : frame.holds id = true
  · rw [without, if_pos held]; rfl
  · rw [without, if_neg held, valueFor, if_neg held]

theorem put_without (frame : Frame α) (id : Nat) (value : α)
    (held : frame.held = some (id, value)) : (frame.without id).put id value = frame := by
  cases frame
  cases held
  simp [without, holds, Frame.id, cleared, put]

def form (typeName : String) (frame : Frame α) : String :=
  Text.fields "SlotFrame" [("type", Text.quoted typeName), ("owner", frame.owner.form),
    ("refs", toString frame.refs), ("id", Text.optional (frame.id.map toString))]

end Frame

end FaultRelay

import FaultRelay.Slot.Frame

/-! The frames of one payload type, innermost first. Nothing here destroys a value: one that leaves
the stack is part of the answer. A value takes outward only through `close`. -/
namespace FaultRelay

structure Stack (α : Type) where
  frames : List (Frame α)

inductive Closed (α : Type) where
  | retained
  | released
  /-- The value moved into the frame beneath, over the value it held. -/
  | propagated (id : Nat) (replaced : Option α)
  | discarded (id : Nat) (value : α)
  | notOpen

inductive Stored (α : Type) where
  | stored (previous : Option α)
  | rejected (value : α)

namespace Stack

variable {α : Type}

def empty : Stack α := ⟨[]⟩

instance : EmptyCollection (Stack α) := ⟨empty⟩

def depth (stack : Stack α) : Nat := stack.frames.length

def isOpen (stack : Stack α) : Bool := !stack.frames.isEmpty

def top? (stack : Stack α) : Option (Frame α) := stack.frames.head?

def onTop (edit : Frame α → Frame α) : Stack α → Stack α
  | ⟨[]⟩ => ⟨[]⟩
  | ⟨top :: below⟩ => ⟨edit top :: below⟩

def frameOf? (stack : Stack α) (owner : Token) : Option (Frame α) :=
  stack.frames.find? (·.owner = owner)

def editFirst (owner : Token) (edit : Frame α → Frame α) : List (Frame α) → List (Frame α)
  | [] => []
  | frame :: below =>
      if frame.owner = owner then edit frame :: below else frame :: editFirst owner edit below

def onFrame (owner : Token) (edit : Frame α → Frame α) (stack : Stack α) : Stack α :=
  ⟨editFirst owner edit stack.frames⟩

def openFrames (owner : Token) : List (Frame α) → List (Frame α)
  | [] => [Frame.fresh owner]
  | top :: below =>
      if top.owner = owner then { top with refs := top.refs + 1 } :: below
      else Frame.fresh owner :: top :: below

/-- Opens the type once more for `owner`, who shares the innermost frame if it is theirs. -/
def openFor (owner : Token) (stack : Stack α) : Stack α := ⟨openFrames owner stack.frames⟩

/-- Where the value of a frame goes when the frame is removed from above `below`. -/
def handDown : Option (Nat × α) → List (Frame α) → Closed α × List (Frame α)
  | none, below => (.released, below)
  | some (id, value), [] => (.discarded id value, [])
  | some (id, value), outer :: rest => (.propagated id outer.value?, outer.put id value :: rest)

def closeFrames (owner : Token) : List (Frame α) → Closed α × List (Frame α)
  | [] => (.notOpen, [])
  | frame :: below =>
      if frame.owner = owner then
        if 1 < frame.refs then (.retained, { frame with refs := frame.refs - 1 } :: below)
        else handDown frame.held below
      else
        let (closed, rest) := closeFrames owner below
        (closed, frame :: rest)

/-- Closes the innermost frame of `owner` once, wherever it sits. -/
def close (owner : Token) (stack : Stack α) : Closed α × Stack α :=
  let (closed, frames) := closeFrames owner stack.frames
  (closed, ⟨frames⟩)

def put (id : Nat) (value : α) : Stack α → Stored α × Stack α
  | ⟨[]⟩ => (.rejected value, ⟨[]⟩)
  | ⟨top :: below⟩ => (.stored top.value?, ⟨top.put id value :: below⟩)

/-- How many times its owners have still to close the stack. -/
def references (stack : Stack α) : Nat :=
  stack.frames.foldr (fun frame count => frame.refs + count) 0

def topId? (stack : Stack α) : Option Nat := stack.top?.bind Frame.id

def valueFor (stack : Stack α) (id : Nat) : Option α := stack.top?.bind (·.valueFor id)

def takeFor (id : Nat) (stack : Stack α) : Option α × Stack α :=
  (stack.valueFor id, stack.onTop (·.without id))

theorem depth_openFor (owner : Token) (stack : Stack α) : 0 < (stack.openFor owner).depth := by
  obtain ⟨frames⟩ := stack
  cases frames with
  | nil => simp [openFor, openFrames, depth]
  | cons top below => by_cases same : top.owner = owner <;> simp [openFor, openFrames, depth, same]

theorem close_empty (owner : Token) : (empty : Stack α).close owner = (.notOpen, empty) := rfl

theorem put_empty (id : Nat) (value : α) :
    (empty : Stack α).put id value = (.rejected value, empty) := rfl

theorem takeFor_empty (id : Nat) : (empty : Stack α).takeFor id = (none, empty) := rfl

/-- Outermost frame first. -/
def form (typeName : String) (stack : Stack α) : String :=
  Text.listed (stack.frames.reverse.map (Frame.form typeName))

end Stack

end FaultRelay

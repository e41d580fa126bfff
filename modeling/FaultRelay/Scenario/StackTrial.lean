import FaultRelay.Scenario.Datum
import FaultRelay.Slot.Stack

/-! Trials of a stack that stands alone and holds texts. -/
namespace FaultRelay.Scenario

inductive FrameStep where
  | get
  | holds (id : Nat)
  | set (id : Nat) (value : String)
  | take
  | takeIf (id : Nat)
  | append (text : String)

inductive StackStep where
  | openFor (token : Token)
  | close (token : Token)
  | put (id : Nat) (value : String)
  | top
  | onTop (step : FrameStep)
  | onFrame (token : Token) (step : FrameStep)

def textTypeName : String := "alloc::string::String"

def writeHeld : Option (Nat × String) → Datum :=
  Datum.nullable fun (id, value) => .list [.nat id, .text value]

def writeFrame (frame : Frame String) : List Datum :=
  [.nat frame.owner.value, Datum.nullable .nat frame.id, writeHeld frame.held]

def FrameStep.run (frame : Frame String) : FrameStep → Datum × Frame String
  | get => (.list (writeFrame frame ++ [.text (frame.form textTypeName)]), frame)
  | holds id => (.bool (frame.holds id), frame)
  | set id value => (Datum.nullable .text frame.value?, frame.put id value)
  | take => (writeHeld frame.held, frame.cleared)
  | takeIf id => (Datum.nullable .text (frame.valueFor id), frame.without id)
  | append text =>
      let held := frame.held.map fun (id, value) => (id, value ++ text)
      (writeHeld held, { frame with held })

def writeTextClosed : Closed String → Datum
  | .retained => .list [.text "retained"]
  | .released => .list [.text "released"]
  | .propagated id replaced =>
      .list [.text "propagated", .nat id, Datum.nullable .text replaced]
  | .discarded id value => .list [.text "discarded", .nat id, .text value]
  | .notOpen => .list [.text "not_open"]

def StackStep.run (stack : Stack String) : StackStep → Datum × Stack String
  | openFor token =>
      let later := stack.openFor token
      (.nat later.depth, later)
  | close token =>
      let (closed, later) := stack.close token
      (writeTextClosed closed, later)
  | put id value =>
      match stack.put id value with
      | (.stored previous, later) => (.list [.text "stored", Datum.nullable .text previous], later)
      | (.rejected value, later) => (.list [.text "rejected", .text value], later)
  | top => (Datum.nullable (fun frame => .list (writeFrame frame)) stack.top?, stack)
  | onTop step =>
      match stack.top? with
      | none => (.null, stack)
      | some frame => (.list [(step.run frame).1], stack.onTop fun frame => (step.run frame).2)
  | onFrame token step =>
      match stack.frameOf? token with
      | none => (.null, stack)
      | some frame =>
          (.list [(step.run frame).1], stack.onFrame token fun frame => (step.run frame).2)

def runStack (stack : Stack String) : List StackStep → List Datum
  | [] => []
  | step :: rest =>
      let (result, later) := step.run stack
      .list [result, .nat later.depth, .bool later.isOpen, .text (later.form textTypeName)] ::
        runStack later rest

def answerStack (steps : List StackStep) : Datum :=
  .record [("steps", .list (runStack .empty steps))]

end FaultRelay.Scenario

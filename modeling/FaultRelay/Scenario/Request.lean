import FaultRelay.Scenario.KeyTrial
import FaultRelay.Scenario.Label
import FaultRelay.Scenario.StackTrial

/-! Requests and their answers. -/
namespace FaultRelay.Scenario

inductive Request where
  | identities (raws : List Nat)
  | settings (values : List (Option (List UInt8)))
  | stack (steps : List StackStep)
  | keys (surroundings : Surroundings) (steps : List KeyStep)
  | run (program : Program)

def writeIdentity (id : FailureId) : Datum :=
  .list [.nat id.raw, .nat id.raw, .text id.text, .text id.form]

def answerIdentities (raws : List Nat) : Datum :=
  .record [("ids", .list (raws.map fun raw => Datum.nullable writeIdentity (FailureId.ofRaw? raw))),
    ("sorted", .list ((FailureId.ascending raws).map writeId))]

def answerSettings (values : List (Option (List UInt8))) : Datum :=
  .record [("enabled",
    .list (values.map fun value => .bool (Settings.ofVariable value).diagnostics))]

def Request.answer : Request → Datum
  | identities raws => answerIdentities raws
  | settings values => answerSettings values
  | stack steps => answerStack steps
  | keys surroundings steps => answerKeys surroundings steps
  | run program => program.answer

end FaultRelay.Scenario

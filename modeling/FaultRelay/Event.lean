import FaultRelay.Failure
import FaultRelay.Settings

/-! What an observer is told. -/
namespace FaultRelay

inductive Event where
  | opened (payload : String) (depth : Nat)
  | propagated (payload : String) (id : Nat)
  | discarded (payload : String) (id : Nat)
  | activated (scope : Nat) (types : Nat)
  | closed (scope : Nat)
  | strayed (payload : String) (id : FailureId)
  | selected (id : FailureId) (handler : Nat) (arguments : String)
  | unmatched (id : FailureId)
  | caught (id : FailureId)
  | raising (id : FailureId)
  | replaying (id : FailureId) (payloads : Nat)
  | installed (settings : Settings)

namespace Event

inductive Level where
  | debug
  | trace

def Level.name : Level → String
  | debug => "DEBUG"
  | trace => "TRACE"

inductive Field where
  | text (text : String)
  | number (number : Nat)

def level : Event → Level
  | selected .. | installed .. => .debug
  | _ => .trace

def message : Event → String
  | opened .. => "opened payload slot"
  | propagated .. => "propagated payload to enclosing scope"
  | discarded .. => "discarded payload, no enclosing scope"
  | activated .. => "activated scope"
  | closed .. => "closed scope"
  | strayed .. => "dropped payload, no open slot"
  | selected .. => "selected handler"
  | unmatched .. => "no handler matched"
  | caught .. => "caught unwinding failure"
  | raising .. => "raising by unwinding"
  | replaying .. => "replaying captured failure"
  | installed .. => "installed configuration"

def fields : Event → List (String × Field)
  | opened payload depth => [("payload", .text payload), ("depth", .number depth)]
  | propagated payload id | discarded payload id => [("payload", .text payload), ("id", .number id)]
  | activated scope types => [("scope", .number scope), ("types", .number types)]
  | closed scope => [("scope", .number scope)]
  | strayed payload id => [("payload", .text payload), ("id", .text id.text)]
  | selected id handler arguments =>
      [("id", .text id.text), ("handler", .number handler), ("arguments", .text arguments)]
  | unmatched id | caught id | raising id => [("id", .text id.text)]
  | replaying id payloads => [("id", .text id.text), ("payloads", .number payloads)]
  | installed settings => [("config", .text settings.form)]

end Event

end FaultRelay

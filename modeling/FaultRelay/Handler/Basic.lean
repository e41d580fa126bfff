import FaultRelay.Handler.Argument

/-! Handlers. A handler accepts a failure when each of its arguments is available and each of its
conditions holds of the value in its slot. -/
namespace FaultRelay

inductive Condition (V : Vocabulary) (σ : Type) where
  | holds (key : Key V) (test : key.Value → Act V σ Bool)
  | thrown (type : ThrownType V)

structure Handler (V : Vocabulary) (σ ρ : Type) where
  arguments : List (Argument V)
  conditions : List (Condition V σ)
  respond : List (Reading V) → Act V σ ρ

namespace Condition

variable {V : Vocabulary} {σ : Type}

def key : Condition V σ → Key V
  | holds key _ => key
  | thrown _ => .thrown

def among (key : Key V) (same : key.Value → key.Value → Bool) (values : List key.Value) :
    Condition V σ :=
  holds key fun value => return values.any (same · value)

def test [Host V σ] (id : FailureId) : Condition V σ → Act V σ Bool
  | holds key test => return (← Slot.lend key id.raw test).getD false
  | thrown type => quietly (Argument.thrownIs type id)

def testAll [Host V σ] (id : FailureId) : List (Condition V σ) → Act V σ Bool
  | [] => return true
  | condition :: rest => do
      if ← condition.test id then testAll id rest else return false

end Condition

namespace Handler

variable {V : Vocabulary} {σ ρ : Type}

/-- Declares the arguments. Two arguments that take out of one slot are refused by unwinding. -/
def make [Host V σ] (arguments : List (Argument V)) (conditions : List (Condition V σ))
    (respond : List (Reading V) → Act V σ ρ) : Act V σ (Handler V σ ρ) := do
  quietly (Arguments.announce .empty arguments)
  match Arguments.conflict? arguments with
  | some key => Act.unwind (.message (Arguments.conflictText key))
  | none => return ⟨arguments, conditions, respond⟩

def interest (handler : Handler V σ ρ) : Interest V :=
  (Arguments.interest handler.arguments).extend (handler.conditions.map (.of ·.key))

def acceptsAll (handler : Handler V σ ρ) : Bool :=
  handler.conditions.isEmpty && Arguments.always handler.arguments

def signature (handler : Handler V σ ρ) : String := Arguments.signature handler.arguments

def form (handler : Handler V σ ρ) : String :=
  "Handler \x7b arguments: " ++ Text.quoted handler.signature ++ ", keys: " ++
    handler.interest.form ++ ", predicates: " ++ toString handler.conditions.length ++ ", .. \x7d"

def accepts [Host V σ] (handler : Handler V σ ρ) (case : Case V) : Act V σ Bool := do
  if ← quietly (Arguments.available case handler.arguments) then
    Condition.testAll case.id handler.conditions
  else
    return false

/-- Runs the handler; none if an argument could not be produced after all. -/
def answer? [Host V σ] (handler : Handler V σ ρ) (case : Case V) : Act V σ (Option ρ) := do
  match ← quietly (Arguments.produce case handler.arguments) with
  | none => return none
  | some readings => some <$> handler.respond readings

end Handler

end FaultRelay

import FaultRelay.Scenario.Program

/-! Trials of one set of payload types. -/
namespace FaultRelay.Scenario

inductive KeyStep where
  | insert (topic : Topic)
  | insertType (topic : Topic)
  | extend (topics : List Topic)
  | reset
  | contains (topic : Topic)
  | merge (topics : List Topic)
  | mergeHandler (handler : HandlerText)
  | equal (first second : Topic)
  | reverse
  | scopeKeeps

def mergeHandler (interest : Interest application) (handler : HandlerText) :
    Step (Datum × Interest application) := do
  let made ← makeHandler 0 (fun _ => return .ok .null) 0 handler
  return (.bool made.acceptsAll, interest.merge made.interest)

def tryScope (interest : Interest application) : Step Datum :=
  Scope.during ⟨interest⟩ fun active => do
    let enabled ← quietly (tallying (V := application))
    return .list [.nat active.interest.size, .bool enabled]

def KeyStep.run (interest : Interest application) :
    KeyStep → Step (Datum × Interest application)
  | insert topic => return (.null, interest.insert (.of topic))
  | insertType topic => return (.null, interest.insertKey topic)
  | extend topics => return (.null, interest.extend (topics.map .of))
  | reset => return (.null, .empty)
  | contains topic => return (.bool (interest.contains topic), interest)
  | merge topics =>
      let other : Interest application := .ofKeys topics
      return (.texts other.names, interest.merge other)
  | mergeHandler handler => Scenario.mergeHandler interest handler
  | equal first second =>
      let same := Datum.bool (first = second)
      return (.list [same, same], interest)
  | reverse => return (.texts (interest.declarations.reverse.map Declaration.form), interest)
  | scopeKeeps => return (← tryScope interest, interest)

def runKeys (interest : Interest application) : List KeyStep → Step (List Datum)
  | [] => return []
  | step :: rest => do
      let (result, later) ← step.run interest
      let line := .list [result, .nat later.size, .bool later.isEmpty, .texts later.names,
        .text later.form]
      return line :: (← runKeys later rest)

def answerKeys (surroundings : Surroundings) (steps : List KeyStep) : Datum :=
  answerWith (surroundings.start false) do
    return [("steps", .list (← runKeys .empty steps))]

end FaultRelay.Scenario

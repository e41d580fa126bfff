import FaultRelay.Handler.Block
import FaultRelay.Scenario.Command
import FaultRelay.Spawn

/-! The statements that hold blocks. Every block of a statement is a part of it, except the callbacks
of guards kept by name: those are run by the parameter `runStored`. No more than `budget` guards and
scopes are dropped when a thread ends. -/
namespace FaultRelay.Scenario

def writeReading : Reading application → Datum
  | .take topic value | .copy topic value => Topic.write topic value
  | .optional none => .list []
  | .optional (some inner) => .list [writeReading inner]
  | .thrown object => writeThrown object
  | .message words => .list [.text words, .text words]
  | .summary id unwound =>
      .record [("id", writeId id), ("text", .text (summaryText id unwound)),
        ("unwound", .bool unwound)]
  | .report report =>
      .record [("dropped", Datum.nullable (Topic.write .tally) report.dropped),
        ("id", writeId report.id), ("present", .texts report.present), ("text", .text report.text),
        ("unwound", .bool report.unwound)]
  | .custom product => .nat product

def noteEnd : Except (Thrown application) Flow → QuietStep Unit
  | .ok flow => note "result" [writeFlow flow]
  | .error object => note "unwound_with" [writeThrown object]

def Comparison.answer (value expected : Datum) : Comparison → Step Bool
  | equal => return value.same expected
  | unequal => return !value.same expected
  | less => return value.precedes expected
  | atLeast => return !value.precedes expected
  | always => return true
  | never => return false
  | throw => Act.unwind (.message (expected.toText?.getD "predicate"))

def testValue (index place : Nat) (topic : Topic) (comparison : Comparison) (expected : Datum)
    (body : Step Flow) (value : topic.Value) : Step Bool := do
  quietly (note "predicate" [.nat index, .nat place, topic.write value])
  match ← body with
  | .ok _ => pure ()
  | .error id => quietly (note "predicate_body_failed" [writeId id])
  comparison.answer (topic.write value) expected

def respondWith (index : Nat) (body : Step Flow) (readings : List (Reading application)) :
    Step Flow := do
  quietly (note "handler" [.nat index, .list (readings.map writeReading)])
  body

abbrev Handlers := List (Handler application Journal Flow)

def totalChain (handlers : Handlers) (otherwise : Option (Handler application Journal Flow)) :
    Except ChainFault (TotalChain application Journal Flow) :=
  match otherwise with
  | none => (Chain.ofList handlers).total
  | some last =>
      if always : last.acceptsAll = true then .ok ((Chain.ofList handlers).endWith last always)
      else ((Chain.ofList handlers).add last).total

def withSet (handlers : Handlers) (otherwise : Option (Handler application Journal Flow))
    (use : TotalChain application Journal Flow → Step Next) : Step Next := do
  match totalChain handlers otherwise with
  | .ok set => use set
  | .error fault =>
      quietly (note "finish_error" [.text fault.form, .text fault.text])
      return .go

def storeGuard (name : String) (context : Context application Callback) : Step Next := do
  let guard ← quietly (Guard.arm context)
  quietly (note "guard" [.text guard.form])
  quietly (Quiet.modifyHost (Journal.keep name (.guard guard)))
  return .go

def runGuarded (context : Context application fun topic => Step topic.Value) (dismiss : Bool)
    (body : Step Flow) : Step Next := do
  let guard ← quietly (Guard.arm context)
  quietly (note "guard" [.text guard.form])
  let flow ← body.onUnwinding (guard.drop fun _ answer => answer)
  if dismiss then quietly guard.dismiss else guard.drop fun _ answer => answer
  quietly (note "guard_end" [writeFlow flow])
  return .ofFlow flow

def noteScope (scope : Scope application) : QuietStep Unit :=
  note "scope" [.texts scope.interest.names, .text scope.form]

def storeScope (name : String) (scope : Scope application) : Step Next := do
  quietly (noteScope scope)
  let active ← quietly scope.enter
  quietly (Quiet.modifyHost (Journal.keep name (.scope active)))
  return .go

def runScoped (scope : Scope application) (body : Step Flow) : Step Next := do
  quietly (noteScope scope)
  let flow ← scope.during fun active => do
    quietly (note "active" [.nat active.token.value, .texts active.interest.names,
      .text active.form])
    body
  quietly (note "closed" [writeFlow flow])
  return .ofFlow flow

def runLent (label : String) (topic : Topic) (id : Nat) (body : Step Flow) : Step Next := do
  let flow ← Slot.lend topic id fun value => do
    quietly (note "with" [topic.write value])
    body
  quietly (note label [Datum.nullable writeFlow flow])
  return (flow.map Next.ofFlow).getD .go

/-- A flow that is the value of a block, whichever way it went. -/
def whole (body : Step Flow) : Step (Except FailureId Flow) := return (← body).map .ok

def runHandling (style : Style) (handlers : Handlers)
    (otherwise : Option (Handler application Journal Flow)) (body : Step Flow) : Step Next :=
  let finish (label : String) (flow : Flow) : Step Next := do
    quietly (note label [writeFlow flow])
    return .ofFlow flow
  match style with
  | .matching => do finish "handle_some" (← handleSome body (Chain.ofList handlers))
  | .returned => withSet handlers otherwise fun set => do
      finish "handle_all" (← handleAll (whole body) set)
  | .unwinding => withSet handlers otherwise fun set => do
      finish "catch" (← catchUnwinding body set)
  | .both => withSet handlers otherwise fun set => do
      finish "catch_result" (← catchBoth (whole body) set)

def dispatchChain (chain : Chain application Journal Flow) (id : FailureId) : Step Next := do
  let outcome ← chain.dispatch id
  let (handled, next) := match outcome with
    | .handled flow => (Datum.record [("handled", writeFlow flow)], Next.ofFlow flow)
    | .unmatched id => (.record [("unmatched", writeId id)], .stop (.error id))
  let ok := match outcome.toExcept with
    | .ok _ => true
    | .error _ => false
  quietly (note "outcome" [.bool outcome.isHandled, handled,
    Datum.nullable writeFlow outcome.handled?, .bool ok])
  return next

def runDispatch (id : FailureId) (asSet : Bool) (handlers : Handlers)
    (otherwise : Option (Handler application Journal Flow)) : Step Next :=
  if asSet then
    withSet handlers otherwise fun set => do
      let flow ← set.dispatch id
      quietly (note "dispatched" [writeFlow flow])
      return .ofFlow flow
  else
    match otherwise with
    | some _ => withSet handlers otherwise fun set => dispatchChain set.chain id
    | none => dispatchChain (Chain.ofList handlers) id

def noteHandler (handler : Handler application Journal Flow) : Step Next := do
  quietly (note "handler_info" [.bool handler.acceptsAll, .texts handler.interest.names,
    .text handler.form])
  return .go

def noteChain (chain : Chain application Journal Flow) : QuietStep Unit :=
  note "list_info" [.nat chain.size, .bool chain.isEmpty, .texts chain.interest.names,
    .texts (Scope.forHandlers chain.handlers).interest.names, .nat chain.handlers.length,
    .text chain.form]

def noteSet (handlers : Handlers) (otherwise : Option (Handler application Journal Flow)) :
    Step Next :=
  withSet handlers otherwise fun set => do
    quietly (note "set_info" [.nat set.chain.size, .bool set.chain.isEmpty,
      .texts set.chain.interest.names, .nat set.chain.handlers.length, .text set.chain.form])
    quietly (note "into_list" [.nat set.chain.size])
    return .go

def runAttempt (unpack : Option String) (body : Step Flow) : Step Next := do
  let ended ← body.attempt
  quietly (noteEnd ended)
  match ended, unpack with
  | .error object, some name =>
      let id ← quietly object.identify
      quietly (bindFailure (some name) id)
      quietly (note "unpack" [writeId id])
  | _, _ => pure ()
  return .go

def runDeferred (cleanup body : Step Flow) : Step Next := do
  let flow ← body.ensuring do
    quietly (do note "cleanup" [.bool (← Guard.unwinding)])
    let ended ← cleanup.attempt
    quietly (noteEnd ended)
  return .ofFlow flow

def runCapture (topics : List Topic) (name : String) (body : Step Flow) : Step Next := do
  match ← Parcel.pack topics body with
  | .ok value => quietly (note "capture" [.record [("ok", value)]])
  | .error parcel =>
      quietly (note "capture" [.record [("captured", writeId parcel.id)]])
      quietly (keepParcel name parcel)
  return .go

def runTimes (body : Step Flow) : Nat → Step Next
  | 0 => return .go
  | count + 1 => do
      match ← body with
      | .ok _ => runTimes body count
      | .error id => return .stop (.error id)

def closeFully (topic : Topic) (token : Token) : Nat → QuietStep Unit
  | 0 => pure ()
  | count + 1 => do
      match ← Slot.close topic token with
      | .notOpen => pure ()
      | closed =>
          note "unclosed" [.text topic.label, .nat token.value, writeClosed topic closed]
          closeFully topic token count

def closeMade : QuietStep Unit := do
  let made := (← Quiet.host).made
  Topic.all.forM fun topic => made.forM fun token => do
    closeFully topic token (← Slot.stack topic).references

def dropParcels : QuietStep Unit := do
  let parcels := (← Quiet.host).parcels.mergeSort fun a b => decide (a.1 ≤ b.1)
  Quiet.modifyHost fun journal => { journal with parcels := [] }
  parcels.forM fun (_, parcel) => parcel.drop

/-- Runs `body` with nothing kept by name, and then drops what it kept. -/
def runKeeping (budget : Nat) (runStored : List Line → Step Flow) (body : Step Flow) :
    Step (Except (Thrown application) Flow) := do
  let ended ← body.attempt
  quietly (noteEnd ended)
  dropLeftovers runStored budget
  return ended

def hideKept : QuietStep Unit :=
  Quiet.modifyHost fun journal => { journal with kept := [], made := [] }

def runThread (budget : Nat) (runStored : List Line → Step Flow) (resume : Bool)
    (body : Step Flow) : Step Next := do
  let outer ← quietly Quiet.host
  let ended ← spawn do
    quietly hideKept
    let ended ← runKeeping budget runStored body
    quietly closeMade
    return ended
  quietly (Quiet.modifyHost fun journal =>
    { journal with tokens := outer.tokens, kept := outer.kept, made := outer.made })
  match ended with
  | .error object => Act.unwind object
  | .ok ended =>
      quietly (note "joined" [])
      match ended, resume with
      | .error object, true => Act.unwind object
      | _, _ => return .go

def restart (outer : Journal) : QuietStep Unit :=
  Quiet.modifyHost fun journal =>
    { outer with entries := journal.entries, parcels := [], kept := [], made := [] }

def runTeardown (budget : Nat) (runStored : List Line → Step Flow) (before body : Step Flow) :
    Step Next := do
  let outer ← quietly Quiet.host
  let ended ← spawn do
    quietly (restart outer)
    discard (runKeeping budget runStored before)
    quietly dropParcels
    quietly closeMade
    quietly Slot.endStorage
    quietly (restart outer)
    quietly (note "teardown" [])
    discard (runKeeping budget runStored body)
    quietly dropParcels
  quietly (Quiet.modifyHost fun journal => { outer with entries := journal.entries })
  match ended with
  | .error object => Act.unwind object
  | .ok () =>
      quietly (note "joined" [])
      return .go

variable (budget : Nat) (runStored : List Line → Step Flow)

mutual

def runBlock : List Line → Step Flow
  | [] => return .ok .null
  | line :: rest => do
      match ← runLine line with
      | .go => runBlock rest
      | .stop flow => return flow

def runLine : Line → Step Next
  | .mk statement bindError => do
      let next ← runStatement statement
      match next with
      | .stop (.ok _) => return next
      | _ =>
          if (← quietly Quiet.host).probing then
            quietly (do note "state" [← writeState])
          match next, bindError with
          | .stop (.error id), some name =>
              quietly (note "bind_err" [writeId id])
              quietly (bindFailure (some name) id)
              return .go
          | next, _ => return next

def runStatement : Statement → Step Next
  | .command command => command.run runStored
  | .keepGuard name (.prepared payloads) => storeGuard name (.prepared payloads)
  | .keepGuard name (.deferred kind value callback) =>
      storeGuard name (.deferred (.app kind) ⟨value, callback⟩)
  | .guarded (.prepared payloads) body dismiss =>
      runGuarded (.prepared payloads) dismiss (runBlock body)
  | .guarded (.deferred kind value callback) body dismiss =>
      let code := answerCallback (.app kind) value (runBlock callback)
      runGuarded (.deferred (.app kind) code) dismiss (runBlock body)
  | .keepScope name types => do storeScope name (← makeScope types)
  | .scoped types body => do runScoped (← makeScope types) (runBlock body)
  | .lend label topic id body => do
      match ← quietly id.number? with
      | some id => runLent label topic id (runBlock body)
      | none => return .go
  | .handle style body handlers otherwise => do
      let made ← makeHandlers 0 handlers
      let last ← match style with
        | .matching => pure none
        | _ => makeOtherwise handlers.length otherwise
      runHandling style made last (runBlock body)
  | .dispatch id asSet handlers otherwise => do
      let made ← makeHandlers 0 handlers
      let last ← makeOtherwise handlers.length otherwise
      withFailure id fun id => runDispatch id asSet made last
  | .handlerInfo handler => do noteHandler (← makeHandler 0 handler)
  | .listInfo handlers otherwise => do
      quietly (noteChain (.ofList (← makeHandlers 0 handlers)))
      let made ← makeHandlers 0 handlers
      let last ← makeOtherwise handlers.length otherwise
      noteSet made last
  | .attempt body unpack => runAttempt unpack (runBlock body)
  | .defer body cleanup => runDeferred (runBlock cleanup) (runBlock body)
  | .capture topics name body => runCapture topics name (runBlock body)
  | .thread body resume => runThread budget runStored resume (runBlock body)
  | .teardown before body => runTeardown budget runStored (runBlock before) (runBlock body)
  | .block body => do
      let flow ← runBlock body
      quietly (note "block" [writeFlow flow])
      return .ofFlow flow
  | .times count body => runTimes (runBlock body) count

def makeScope : ScopeTypes → Step (Scope application)
  | .listed topics => return ⟨.ofKeys topics⟩
  | .handlers handlers otherwise => do
      let made ← makeHandlers 0 handlers
      let last ← makeOtherwise handlers.length otherwise
      return Scope.forHandlers (made ++ last.toList)

def makeHandler (index : Nat) : HandlerText → Step (Handler application Journal Flow)
  | .mk arguments conditions body =>
      Handler.make arguments (makeConditions index 0 conditions) (respondWith index (runBlock body))

def makeHandlers (index : Nat) : List HandlerText → Step Handlers
  | [] => return []
  | handler :: rest => do
      let made ← makeHandler index handler
      return made :: (← makeHandlers (index + 1) rest)

def makeOtherwise (index : Nat) :
    Option HandlerText → Step (Option (Handler application Journal Flow))
  | none => return none
  | some handler => some <$> makeHandler index handler

def makeConditions (index place : Nat) :
    List ConditionText → List (Condition application Journal)
  | [] => []
  | condition :: rest =>
      makeCondition index place condition :: makeConditions index (place + 1) rest

def makeCondition (index place : Nat) : ConditionText → Condition application Journal
  | .compare topic comparison value body =>
      .holds topic (testValue index place topic comparison value (runBlock body))
  | .among kind values =>
      .among (Topic.ofKind kind) (fun (a b : kind.Value) => decide (a = b)) values
  | .caught type => .thrown type

end

end FaultRelay.Scenario

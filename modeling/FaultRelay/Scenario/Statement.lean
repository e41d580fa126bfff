import FaultRelay.Guard
import FaultRelay.Scenario.Application

/-! Scenarios: programs that use the relay. A command does one step; the other statements hold
blocks of their own. -/
namespace FaultRelay.Scenario

inductive Ref where
  | named (name : String)
  | raw (number : Nat)

inductive ThrowKind where
  | phrase
  | message
  | composed
  | fixed
  | number
  | diskFull
  | nothing
  | identity

def ThrowKind.ofLabel? : String → Option ThrowKind
  | "str" => some .phrase
  | "string" | "any" => some .message
  | "macro" => some .composed
  | "literal" => some .fixed
  | "int" => some .number
  | "disk" => some .diskFull
  | "unit" => some .nothing
  | "id" => some .identity
  | _ => none

inductive Edit (α : Type) where
  | keep
  | clear
  | retag (id : Ref)
  | set (id : Ref) (value : α)

/-- Steps on the slots themselves, past scopes and settings. -/
inductive SlotCommand where
  | token (var : String) (detached : Bool)
  | openSlot (topic : Topic) (token : String)
  | closeSlot (topic : Topic) (token : String)
  | put (payload : Payload application) (id : Ref)
  | has (topic : Topic) (id : Ref)
  | extract (topic : Topic) (id : Ref)
  | topId (topic : Topic)
  | types
  | updateTop (topic : Topic) (edit : Edit topic.Value)

inductive Command where
  | new (var : String)
  | peek (var : String)
  | current (var : Option String)
  | foreign (raw : Nat) (var : String)
  | showId (id : Ref)
  | put (payload : Payload application) (id : Ref)
  | load (payload : Payload application) (id : Ref)
  | loadAll (payloads : List (Payload application)) (id : Ref)
  | newError (payloads : List (Payload application)) (var : Option String)
  | fail (id : Ref)
  | failNew (payloads : List (Payload application))
  | raise (payloads : List (Payload application))
  | raiseId (id : Ref)
  | throw (kind : ThrowKind) (value : Datum) (id : Option Ref)
  | answer (value : Datum)
  | dropGuard (name : String)
  | dismiss (name : String)
  | close (name : String)
  | state
  | tally
  | has (topic : Topic) (id : Ref)
  | holds (topic : Topic) (id : Ref)
  | read (topic : Topic) (id : Ref)
  | extract (topic : Topic) (id : Ref)
  | parcelInfo (name : String)
  | replay (name : String) (var : Option String)
  | dropParcel (name : String)
  | install (diagnostics : Bool)
  | currentSettings
  | environmentSettings
  | slots (command : SlotCommand)

inductive Style where
  | returned
  | matching
  | unwinding
  | both

inductive Comparison where
  | equal
  | unequal
  | less
  | atLeast
  | always
  | never
  | throw

def Comparison.ofLabel? : String → Option Comparison
  | "eq" => some .equal
  | "ne" => some .unequal
  | "lt" => some .less
  | "ge" => some .atLeast
  | "always" => some .always
  | "never" => some .never
  | "panic" => some .throw
  | _ => none

mutual

inductive Statement where
  | command (command : Command)
  | keepGuard (name : String) (context : GuardContext)
  | guarded (context : GuardContext) (body : List Line) (dismiss : Bool)
  | keepScope (name : String) (types : ScopeTypes)
  | scoped (types : ScopeTypes) (body : List Line)
  | lend (label : String) (topic : Topic) (id : Ref) (body : List Line)
  | handle (style : Style) (body : List Line) (handlers : List HandlerText)
      (otherwise : Option HandlerText)
  | dispatch (id : Ref) (asSet : Bool) (handlers : List HandlerText)
      (otherwise : Option HandlerText)
  | handlerInfo (handler : HandlerText)
  | listInfo (handlers : List HandlerText) (otherwise : Option HandlerText)
  | attempt (body : List Line) (unpack : Option String)
  | defer (body : List Line) (cleanup : List Line)
  | capture (topics : List Topic) (name : String) (body : List Line)
  | thread (body : List Line) (resume : Bool)
  | teardown (before : List Line) (body : List Line)
  | block (body : List Line)
  | times (count : Nat) (body : List Line)

/-- A statement, with the variable that takes the failure it ends with, if it is to go on. -/
inductive Line where
  | mk (statement : Statement) (bindError : Option String)

inductive GuardContext where
  | prepared (payloads : List (Payload application))
  | deferred (kind : Kind) (value : kind.Value) (callback : List Line)

inductive ScopeTypes where
  | listed (topics : List Topic)
  | handlers (handlers : List HandlerText) (otherwise : Option HandlerText)

inductive HandlerText where
  | mk (arguments : List (Argument application)) (conditions : List ConditionText)
      (body : List Line)

inductive ConditionText where
  | compare (topic : Topic) (comparison : Comparison) (value : Datum) (body : List Line)
  | among (kind : Kind) (values : List kind.Value)
  | caught (type : ThrownType application)

end

/-- The code of a guard's callback: the block it runs and the value it answers with. -/
structure Callback (topic : Topic) where
  value : topic.Value
  body : List Line

abbrev StoredGuard := Guard application Callback

end FaultRelay.Scenario

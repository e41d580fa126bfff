import FaultRelay.Failure
import FaultRelay.Vocabulary

/-! Payload types and their values. Two types are the library's own: the tally of payloads that
nobody was waiting for, and the object that an unwinding failure was thrown with. -/
namespace FaultRelay

/-- How many payloads found no open slot for one failure, and the type of the first. -/
structure Tally where
  firstType : String
  count : Nat
deriving DecidableEq

namespace Tally

def one (typeName : String) : Tally := ⟨typeName, 1⟩

def more (tally : Tally) : Tally := { tally with count := tally.count + 1 }

def text (tally : Tally) : String :=
  toString tally.count ++ " unexpected payload" ++ (if tally.count = 1 then "" else "s") ++
    " dropped, first of type " ++ tally.firstType

end Tally

inductive Thrown (V : Vocabulary) where
  | unwound (id : FailureId)
  | identity (id : FailureId)
  /-- A message fixed in the program text. -/
  | phrase (text : String)
  /-- A message composed while running. -/
  | message (text : String)
  | foreign (object : V.Object)

inductive ThrownType (V : Vocabulary) where
  | unwound
  | identity
  | phrase
  | message
  | foreign (type : V.ObjectType)
deriving DecidableEq

namespace Thrown

variable {V : Vocabulary}

def type : Thrown V → ThrownType V
  | unwound _ => .unwound
  | identity _ => .identity
  | phrase _ => .phrase
  | message _ => .message
  | foreign object => .foreign (V.objectType object)

def hasType (object : Thrown V) (type : ThrownType V) : Bool := object.type = type

def carried? : Thrown V → Option FailureId
  | unwound id | identity id => some id
  | _ => none

def text? : Thrown V → Option String
  | phrase text | message text => some text
  | _ => none

def signalText (id : FailureId) : String := "unwinding with " ++ id.text

def signalForm (id : FailureId) : String := "Unwound(" ++ id.form ++ ")"

end Thrown

def ThrownType.name {V : Vocabulary} : ThrownType V → String
  | unwound => "carrier::unwind::Unwound"
  | identity => "carrier::id::ErrorId"
  | phrase => "&str"
  | message => "alloc::string::String"
  | foreign type => V.objectTypeName type

inductive Key (V : Vocabulary) where
  | app (kind : V.Kind)
  | tally
  | thrown
deriving DecidableEq

namespace Key

variable {V : Vocabulary}

@[reducible] def Value : Key V → Type
  | app kind => V.Value kind
  | tally => Tally
  | thrown => Thrown V

def name : Key V → String
  | app kind => V.name kind
  | tally => "carrier::diagnostics::DroppedPayloads"
  | thrown => "carrier::unwind::Thrown"

def isInternal : Key V → Bool
  | app _ => false
  | tally | thrown => true

end Key

structure Payload (V : Vocabulary) where
  key : Key V
  value : key.Value

end FaultRelay

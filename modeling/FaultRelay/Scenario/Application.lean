import FaultRelay.Handler.Argument
import FaultRelay.Scenario.Datum

/-! The application that scenarios run: nine payload types, of which two have destructors, a few
foreign objects, and a family of arguments that watch how they are used. -/
namespace FaultRelay.Scenario

inductive Kind where
  | code
  | name
  | flag
  | tags
  | unit
  | noisy
  | echo
  | byte
  | string
deriving DecidableEq

namespace Kind

@[reducible] def Value : Kind → Type
  | code => Int
  | name => String
  | flag => Bool
  | tags => List Int
  | unit => Unit
  | noisy => String
  | echo => Int
  | byte => UInt8
  | string => String

def all : List Kind := [code, name, flag, tags, unit, noisy, echo, byte, string]

def label : Kind → String
  | code => "Code"
  | name => "Name"
  | flag => "Flag"
  | tags => "Tags"
  | unit => "Unit"
  | noisy => "Noisy"
  | echo => "Echo"
  | byte => "u8"
  | string => "String"

def typeName : Kind → String
  | byte => "u8"
  | string => "alloc::string::String"
  | kind => "app::types::" ++ kind.label

instance : (kind : Kind) → DecidableEq kind.Value
  | code | name | flag | tags | unit | noisy | echo | byte | string => inferInstance

def write : (kind : Kind) → kind.Value → Datum
  | code, value | echo, value => .int value
  | name, value | noisy, value | string, value => .text value
  | flag, value => .bool value
  | tags, value => .list (value.map .int)
  | unit, _ => .null
  | byte, value => .nat value.toNat

/-- The value that the datum writes; what does not have the form of the type is read as zero or
empty. -/
def read : (kind : Kind) → Datum → kind.Value
  | code, .int value | echo, .int value => value
  | code, _ | echo, _ => 0
  | name, value | noisy, value | string, value => value.toText?.getD ""
  | flag, .bool value => value
  | flag, _ => false
  | tags, .list items => items.filterMap Datum.toInt?
  | tags, _ => []
  | unit, _ => ()
  | byte, .int value => .ofNat value.toNat
  | byte, _ => 0

theorem read_write (kind : Kind) (value : kind.Value) : kind.read (kind.write value) = value := by
  cases kind with
  | tags =>
      simp only [write, read, List.filterMap_map, Function.comp_def, Datum.toInt?]
      exact List.filterMap_some
  | byte =>
      have small : ((value : UInt8).toNat : Int).toNat = (value : UInt8).toNat :=
        Int.toNat_natCast _
      simp only [write, read, Datum.nat, small]
      exact UInt8.ofNat_toNat (x := value)
  | code | name | flag | unit | noisy | echo | string => rfl

end Kind

inductive Foreign where
  | number (n : Int)
  | diskFull (disk : Int)
  | nothing

inductive ForeignType where
  | number
  | diskFull
  | nothing
deriving DecidableEq

def Foreign.type : Foreign → ForeignType
  | number _ => .number
  | diskFull _ => .diskFull
  | nothing => .nothing

def ForeignType.name : ForeignType → String
  | number => "i32"
  | diskFull => "app::types::DiskFull"
  | nothing => "()"

inductive Mode where
  | honest
  | unsatisfied
  | broken
  | liar
  | liarBroken
deriving DecidableEq

namespace Mode

def label : Mode → String
  | honest => ""
  | unsatisfied => "unsatisfied"
  | broken => "broken"
  | liar => "liar"
  | liarBroken => "liar-broken"

def code : Mode → Nat
  | honest => 0
  | unsatisfied => 1
  | broken => 2
  | liar => 3
  | liarBroken => 4

def all : List Mode := [honest, unsatisfied, broken, liar, liarBroken]

def agrees : Mode → Bool
  | unsatisfied | liar => false
  | _ => true

def produces : Mode → Bool
  | broken | liarBroken => false
  | _ => true

def promises : Mode → Bool
  | liar | liarBroken => true
  | _ => false

end Mode

structure Watch where
  number : Nat
  takes : Bool
  mode : Mode

def Watch.name (watch : Watch) : String :=
  "app::tables::Spy<" ++ toString watch.number ++ ", " ++
    (if watch.takes then "true" else "false") ++ ", " ++ toString watch.mode.code ++ ">"

def application : Vocabulary where
  Kind := Kind
  kindDecidable := inferInstance
  Value := Kind.Value
  name := Kind.typeName
  Object := Foreign
  ObjectType := ForeignType
  objectTypeDecidable := inferInstance
  objectType := Foreign.type
  objectTypeName := ForeignType.name
  Custom := Watch
  customName := Watch.name
  customTakes := Watch.takes
  customAlways watch := watch.mode.promises
  Product := Nat

abbrev Topic := Key application

namespace Topic

def ofKind (kind : Kind) : Topic := .app kind

def all : List Topic := Kind.all.map ofKind ++ [.tally]

def label : Topic → String
  | .app kind => Kind.label kind
  | .tally => "DroppedPayloads"
  | .thrown => "Thrown"

def write : (topic : Topic) → topic.Value → Datum
  | .app kind, value => Kind.write kind value
  | .tally, tally =>
      .record [("count", .nat tally.count), ("first", .text tally.firstType),
        ("text", .text tally.text)]
  | .thrown, _ => .null

end Topic

def payload (kind : Kind) (value : kind.Value) : Payload application := ⟨.app kind, value⟩

def writeThrown : Thrown application → Datum
  | .unwound id =>
      .list [.text "unwound", .nat id.raw, .text (Thrown.signalText id),
        .text (Thrown.signalForm id)]
  | .identity id => .list [.text "id", .nat id.raw]
  | .phrase text => .list [.text "str", .text text]
  | .message text => .list [.text "string", .text text]
  | .foreign (.number n) => .list [.text "int", .int n]
  | .foreign (.diskFull disk) => .list [.text "disk", .int disk]
  | .foreign .nothing => .list [.text "other"]

end FaultRelay.Scenario

import FaultRelay.Handler.Selection
import FaultRelay.Scenario.Journal
import FaultRelay.Unwinding

/-! The commands. A command that names something that is not there does nothing. Blocks of stored
callbacks are run by the parameter `runStored`. -/
namespace FaultRelay.Scenario

inductive Next where
  | go
  | stop (flow : Flow)

def Next.ofFlow : Flow → Next
  | .ok _ => .go
  | .error id => .stop (.error id)

/-- The value of a deferred guard, after its block has run. -/
def answerCallback (topic : Topic) (value : topic.Value) (body : Step Flow) : Step topic.Value := do
  quietly (note "callback" [.text topic.label])
  match ← body with
  | .ok _ => pure ()
  | .error id => quietly (note "callback_failed" [writeId id])
  return value

def dropGuard (runStored : List Line → Step Flow) (guard : StoredGuard) : Step Unit :=
  guard.drop fun topic callback => answerCallback topic callback.value (runStored callback.body)

def dropKept (runStored : List Line → Step Flow) : Kept → Step Unit
  | .scope scope => quietly scope.leave
  | .guard guard => dropGuard runStored guard

def dropLeftovers (runStored : List Line → Step Flow) : Nat → Step Unit
  | 0 => pure ()
  | count + 1 => do
      match (← quietly Quiet.host).kept with
      | [] => pure ()
      | (name, kept) :: rest =>
          quietly (Quiet.modifyHost fun journal => { journal with kept := rest })
          quietly (note "leftover" [.text name])
          dropKept runStored kept
          dropLeftovers runStored count

def ThrowKind.object (kind : ThrowKind) (value : Datum) (id : Option FailureId) :
    Thrown application :=
  let words := value.toText?.getD ""
  let amount := value.toInt?.getD 0
  match kind with
  | phrase => .phrase words
  | message | composed => .message words
  | fixed => .phrase "literal panic"
  | number => .foreign (.number amount)
  | diskFull => .foreign (.diskFull amount)
  | nothing => .foreign .nothing
  | identity => id.elim (.foreign .nothing) .identity

def withFailure (id : Ref) (use : FailureId → Step Next) : Step Next := do
  match ← quietly id.failure? with
  | some id => use id
  | none => return .go

def withNumber (id : Ref) (use : Nat → QuietStep Unit) : Step Next := do
  match ← quietly id.number? with
  | some id => quietly (use id)
  | none => pure ()
  return .go

def withToken (name : String) (use : Token → QuietStep Unit) : Step Next := do
  match (← quietly Quiet.host).tokens.lookup name with
  | some owner => quietly (use owner)
  | none => pure ()
  return .go

def noteQuery (kind : String) (topic : Topic) (id : Ref)
    (query : Nat → QuietStep (Option topic.Value)) : Step Next :=
  withNumber id fun id => do
    let answer ← query id
    note kind [Datum.nullable topic.write answer]

def noteTest (kind : String) (id : Ref) (test : Nat → QuietStep Bool) : Step Next :=
  withNumber id fun id => do
    let answer ← test id
    note kind [.bool answer]

def writePair (topic : Topic) : Option (Nat × topic.Value) → Datum :=
  Datum.nullable fun (id, value) => .list [.nat id, topic.write value]

def Edit.apply {α : Type} : Edit α → Option (Nat × α) → QuietStep (Option (Nat × α))
  | keep, pair => return pair
  | clear, _ => return none
  | retag id, pair => do
      let number ← id.number?
      return pair.map fun (old, value) => (number.getD old, value)
  | set id value, pair => do
      match ← id.number? with
      | some number => return some (number, value)
      | none => return pair

def SlotCommand.run : SlotCommand → Step Next
  | token var detached => do
      let token ← quietly (if detached then pure .detached else Token.next)
      quietly (Quiet.modifyHost (Journal.setToken var token))
      quietly (note "token" [.nat token.value, .text token.form])
      return .go
  | openSlot topic name => withToken name fun token => do
      let depth ← Slot.openFor topic token
      note "reg_open" [.nat depth]
  | closeSlot topic name => withToken name fun token => do
      let closed ← Slot.close topic token
      note "reg_close" [writeClosed topic closed]
  | put payload id => withNumber id fun id => do
      match ← Slot.put payload.key id payload.value with
      | .stored old =>
          note "reg_put" [.text "stored", Datum.nullable (Topic.write payload.key) old]
      | .rejected value => note "reg_put" [.text "rejected", Topic.write payload.key value]
  | has topic id => noteTest "reg_has" id (Slot.holds topic)
  | extract topic id => noteQuery "reg_extract" topic id (Slot.takeFor topic)
  | topId topic => do
      let id ← quietly (Slot.topId? topic)
      quietly (note "reg_top_id" [Datum.nullable .nat id])
      return .go
  | types => do
      let count ← quietly (Slot.types (V := application))
      quietly (note "reg_types" [.nat count])
      return .go
  | updateTop topic edit => do
      match (← quietly (Slot.stack topic)).top? with
      | none => quietly (note "reg_update_top" [.bool false])
      | some top =>
          quietly (note "pair" [writePair topic top.held])
          let pair ← quietly (edit.apply top.held)
          discard (quietly (Slot.editTop topic fun _ => pair))
          quietly (note "reg_update_top" [.bool true])
      return .go

def Command.run (runStored : List Line → Step Flow) : Command → Step Next
  | new var => do
      let id ← quietly FailureId.mint
      quietly (bindFailure (some var) id)
      quietly (note "new" [writeId id])
      return .go
  | peek var => do
      let id ← quietly FailureId.reserve
      quietly (bindFailure (some var) id)
      quietly (note "peek" [writeId id])
      return .go
  | current var => do
      match ← quietly FailureId.current with
      | some id =>
          quietly (bindFailure var id)
          quietly (note "current" [writeId id])
      | none => quietly (note "current" [.null])
      return .go
  | foreign raw var => do
      match FailureId.ofRaw? raw with
      | some id =>
          quietly (bindFailure (some var) id)
          quietly (note "foreign" [writeId id])
      | none => quietly (note "foreign" [.null])
      return .go
  | showId id => withFailure id fun id => do
      quietly (note "show_id" [writeId id, .text id.text, .text id.form])
      return .go
  | put payload id => withFailure id fun id => do
      let stored ← quietly (record payload.key payload.value id)
      quietly (note "put" [.bool stored])
      return .go
  | load payload id => withFailure id fun id => do
      discard (quietly (record payload.key payload.value id))
      quietly (note "load" [writeId id])
      return .go
  | loadAll payloads id => withFailure id fun id => do
      quietly (recordAll payloads id)
      quietly (note "load_all" [writeId id])
      return .go
  | newError payloads var => do
      let id ← quietly (newFailure payloads)
      quietly (bindFailure var id)
      quietly (note "new_error" [writeId id])
      return .go
  | state => do
      let state ← quietly writeState
      quietly (note "state" [state])
      return .go
  | tally => do
      let enabled ← quietly (tallying (V := application))
      quietly (note "tally" [.bool enabled])
      return .go
  | has topic id => noteTest "has" id (Slot.holds topic)
  | holds topic id => noteTest "holds" id (Slot.holds topic)
  | read topic id => noteQuery "value" topic id (Slot.valueFor topic)
  | extract topic id => noteQuery "extract" topic id (Slot.takeFor topic)
  | parcelInfo name => do
      match (← quietly Quiet.host).parcels.lookup name with
      | none => pure ()
      | some parcel =>
          quietly (note "cap_info" [writeId parcel.id, .nat parcel.size, .bool parcel.isEmpty,
            .texts parcel.names, .text parcel.text, .text parcel.form])
      return .go
  | replay name var => do
      match ← quietly (takeParcel name) with
      | none => pure ()
      | some parcel =>
          let id ← quietly parcel.unpack
          quietly (bindFailure var id)
          quietly (note "replay" [writeId id])
      return .go
  | dropParcel name => do
      match ← quietly (takeParcel name) with
      | none => pure ()
      | some parcel =>
          quietly parcel.drop
          quietly (note "drop_cap" [])
      return .go
  | install diagnostics => do
      match ← quietly (Settings.install (V := application) ⟨diagnostics⟩) with
      | .ok () => quietly (note "config_install" [.text "ok"])
      | .error rejected =>
          quietly (note "config_install" [.text "rejected", .bool rejected.diagnostics,
            .text Settings.rejectionText, .text Settings.rejectionForm])
      return .go
  | currentSettings => do
      let settings ← quietly (Settings.inForce (V := application))
      quietly (note "config_current" [.bool settings.diagnostics, .text settings.form,
        .bool (settings = .default)])
      return .go
  | environmentSettings => do
      let settings ← quietly (Settings.fromEnvironment (V := application))
      quietly (note "config_from_env" [.bool settings.diagnostics])
      return .go
  | slots command => command.run
  | fail id => withFailure id fun id => return .stop (.error id)
  | failNew payloads => return .stop (.error (← quietly (newFailure payloads)))
  | answer value => return .stop (.ok value)
  | raise payloads => FaultRelay.raise payloads
  | raiseId id => withFailure id FailureId.raise
  | throw kind value id => do
      let id ← match id with
        | some id => quietly id.failure?
        | none => pure none
      Act.unwind (kind.object value id)
  | close name => do
      match ← quietly (takeScope name) with
      | none => pure ()
      | some scope =>
          quietly scope.leave
          quietly (note "close" [])
      return .go
  | dropGuard name => do
      match ← quietly (takeGuard name) with
      | none => pure ()
      | some guard =>
          Scenario.dropGuard runStored guard
          quietly (note "drop_guard" [])
      return .go
  | dismiss name => do
      match ← quietly (takeGuard name) with
      | none => pure ()
      | some guard =>
          quietly guard.dismiss
          quietly (note "dismiss" [])
      return .go

end FaultRelay.Scenario

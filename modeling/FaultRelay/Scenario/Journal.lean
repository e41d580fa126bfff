import FaultRelay.Parcel
import FaultRelay.Scenario.Statement

/-! The state of a running scenario, which is also the host of the relay: the log, the variables of
the running thread, and the scopes and guards it keeps open by name. -/
namespace FaultRelay.Scenario

inductive Kept where
  | scope (scope : OpenScope application)
  | guard (guard : StoredGuard)

structure Journal where
  entries : List Datum
  failures : List (String × FailureId)
  tokens : List (String × Token)
  parcels : List (String × Parcel application)
  kept : List (String × Kept)
  made : List Token
  tracing : Bool
  probing : Bool

abbrev Step := Act application Journal

abbrev QuietStep := Quiet application Journal

abbrev Flow := Except FailureId Datum

def Journal.start (tracing probing : Bool) : Journal := ⟨[], [], [], [], [], [], tracing, probing⟩

def writeEvent (event : Event) : Datum :=
  .list [.text "event", .text event.level.name, .text event.message,
    .record ((event.fields.map fun (name, field) =>
      (name, match field with | .text text => Datum.text text | .number n => .nat n)).mergeSort
        fun a b => decide (a.1 ≤ b.1))]

instance : Observer Journal where
  observe event journal :=
    if journal.tracing then { journal with entries := writeEvent event :: journal.entries }
    else journal

def note (kind : String) (parts : List Datum) : QuietStep Unit :=
  Quiet.modifyHost fun journal =>
    { journal with entries := .list (.text kind :: parts) :: journal.entries }

def writeId (id : FailureId) : Datum := .nat id.raw

def writeFlow : Flow → Datum
  | .ok value => .record [("ok", value)]
  | .error id => .record [("err", writeId id)]

/-- The destructors: a noisy value says so, and an echo records a code for the current failure. -/
def destroy : (kind : Kind) → kind.Value → QuietStep Unit
  | .noisy, value => note "drop" [.text value]
  | .echo, value => do
      match ← FailureId.current with
      | none => note "echo" [.int value, .null]
      | some id =>
          let stored ← recordEnding (Topic.ofKind .code) (fun _ => pure ()) value id
          note "echo" [.int value, .bool stored]
  | .code, _ | .name, _ | .flag, _ | .tags, _ | .unit, _ | .byte, _ | .string, _ => pure ()

instance : Host application Journal where
  destroy := destroy
  declared watch count := note "spy" [.nat watch.number, .text "declare", .nat count]
  available watch case := do
    let unwound ← Argument.unwound (V := application) case.id
    note "spy" [.nat watch.number, .text "is_satisfied", writeId case.id, .bool unwound,
      .nat case.interest.size]
    return watch.mode.agrees
  produced watch := do
    note "spy" [.nat watch.number, .text "extract"]
    return if watch.mode.produces then some watch.number else none

namespace Journal

def setFailure (name : String) (id : FailureId) (journal : Journal) : Journal :=
  { journal with failures := (name, id) :: journal.failures }

def setToken (name : String) (token : Token) (journal : Journal) : Journal :=
  { journal with tokens := (name, token) :: journal.tokens, made := journal.made ++ [token] }

def keep (name : String) (kept : Kept) (journal : Journal) : Journal :=
  { journal with kept := (name, kept) :: journal.kept }

end Journal

def bindFailure (name : Option String) (id : FailureId) : QuietStep Unit :=
  match name with
  | some name => Quiet.modifyHost (Journal.setFailure name id)
  | none => pure ()

def takeFirst {α β : Type} (name : String) (select : α → Option β) :
    List (String × α) → Option (β × List (String × α))
  | [] => none
  | (key, item) :: rest =>
      if key = name then
        match select item with
        | some found => some (found, rest)
        | none => (takeFirst name select rest).map fun (found, left) => (found, (key, item) :: left)
      else (takeFirst name select rest).map fun (found, left) => (found, (key, item) :: left)

def takeKept {β : Type} (name : String) (select : Kept → Option β) : QuietStep (Option β) := do
  let journal ← Quiet.host
  match takeFirst name select journal.kept with
  | some (found, rest) =>
      Quiet.modifyHost fun journal => { journal with kept := rest }
      return some found
  | none => return none

def takeScope (name : String) : QuietStep (Option (OpenScope application)) :=
  takeKept name fun
    | .scope scope => some scope
    | .guard _ => none

def takeGuard (name : String) : QuietStep (Option StoredGuard) :=
  takeKept name fun
    | .guard guard => some guard
    | .scope _ => none

def takeParcel (name : String) : QuietStep (Option (Parcel application)) := do
  match takeFirst name some (← Quiet.host).parcels with
  | some (found, rest) =>
      Quiet.modifyHost fun journal => { journal with parcels := rest }
      return some found
  | none => return none

/-- Keeps a parcel by name; an older one of that name is dropped. -/
def keepParcel (name : String) (parcel : Parcel application) : QuietStep Unit := do
  let old ← takeParcel name
  Quiet.modifyHost fun journal => { journal with parcels := (name, parcel) :: journal.parcels }
  match old with
  | some old => old.drop
  | none => pure ()

namespace Ref

def failure? : Ref → QuietStep (Option FailureId)
  | named name => return (← Quiet.host).failures.lookup name
  | raw number => return FailureId.ofRaw? number

def number? : Ref → QuietStep (Option Nat)
  | named name => return ((← Quiet.host).failures.lookup name).map FailureId.raw
  | raw number => return some number

end Ref

def openSlots : List Topic → QuietStep (List (String × Datum))
  | [] => return []
  | topic :: rest => do
      let depth ← Slot.depth topic
      let id ← Slot.topId? topic
      let later ← openSlots rest
      return if depth = 0 then later
        else (topic.label, .list [.nat depth, Datum.nullable .nat id]) :: later

def writeState : QuietStep Datum := do
  let slots ← openSlots Topic.all
  let current ← FailureId.current
  return .record [("current", Datum.nullable writeId current),
    ("open", .record (slots.mergeSort fun a b => decide (a.1 ≤ b.1)))]

/-- What became of a closed frame; a replaced value stands in brackets of its own. -/
def writeClosed (topic : Topic) : Closed topic.Value → Datum
  | .retained => .list [.text "retained"]
  | .released => .list [.text "released"]
  | .notOpen => .list [.text "not_open"]
  | .propagated id replaced =>
      .list [.text "propagated", .nat id,
        Datum.nullable (fun value => .list [topic.write value]) replaced]
  | .discarded id value => .list [.text "discarded", .nat id, topic.write value]

end FaultRelay.Scenario

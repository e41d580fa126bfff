import FaultRelay.Recording

/-! Arguments of handlers: what each reads, when it can be produced, and what it is. The arguments
of one handler that only read are produced before the ones that take a value out of its slot. -/
namespace FaultRelay

inductive Argument (V : Vocabulary) where
  | take (key : Key V)
  | copy (key : Key V)
  | optional (inner : Argument V)
  | thrown (type : ThrownType V)
  | message
  | summary
  | report
  | custom (argument : V.Custom)

structure Report where
  id : FailureId
  unwound : Bool
  present : List String
  dropped : Option Tally

inductive Reading (V : Vocabulary) where
  | take (key : Key V) (value : key.Value)
  | copy (key : Key V) (value : key.Value)
  | optional (inner : Option (Reading V))
  | thrown (object : Thrown V)
  | message (text : String)
  | summary (id : FailureId) (unwound : Bool)
  | report (report : Report)
  | custom (product : V.Product)

/-- The end of a reading that no handler was given. Copies end without effect. -/
def Reading.discard {V : Vocabulary} {σ : Type} [Host V σ] : Reading V → Quiet V σ Unit
  | take key value => release key value
  | optional (some inner) => inner.discard
  | optional none | copy _ _ | thrown _ | message _ | summary _ _ | report _ | custom _ => pure ()

def summaryText (id : FailureId) (unwound : Bool) : String :=
  if unwound then id.text ++ " (unwound)" else id.text

def Report.text (report : Report) : String :=
  summaryText report.id report.unwound ++
    (if report.present.isEmpty then "" else "\npayloads: " ++ ", ".intercalate report.present) ++
    (match report.dropped with
      | some tally => "\n" ++ tally.text
      | none => "")

namespace Argument

variable {V : Vocabulary} {σ : Type}

def name : Argument V → String
  | take key => "carrier::extract::Payload<" ++ key.name ++ ">"
  | copy key => "carrier::extract::Peek<" ++ key.name ++ ">"
  | optional inner => "core::option::Option<" ++ inner.name ++ ">"
  | thrown type => "carrier::extract::Caught<" ++ type.name ++ ">"
  | message => "carrier::extract::PanicMessage"
  | summary => "carrier::extract::ErrorInfo"
  | report => "carrier::diagnostics::DiagnosticInfo"
  | custom argument => V.customName argument

/-- The slot the argument reads, with the tally flag it asks for. -/
def declaration? : Argument V → Option (Declaration V)
  | take key | copy key => some (.of key)
  | optional inner => inner.declaration?
  | thrown _ | message => some (.of .thrown)
  | report => some .counting
  | summary | custom _ => none

def taken? : Argument V → Option (Key V)
  | take key => some key
  | thrown _ => some .thrown
  | optional inner => inner.taken?
  | copy _ | message | summary | report | custom _ => none

/-- Whether the argument is produced after those that only read. -/
def takes : Argument V → Bool
  | take _ | thrown _ => true
  | optional inner => inner.takes
  | custom argument => V.customTakes argument
  | copy _ | message | summary | report => false

def always : Argument V → Bool
  | optional _ | summary | report => true
  | custom argument => V.customAlways argument
  | take _ | copy _ | thrown _ | message => false

def announce [Host V σ] (count : Nat) : Argument V → Quiet V σ Unit
  | custom argument => Host.declared argument count
  | optional inner => inner.announce count
  | take _ | copy _ | thrown _ | message | summary | report => pure ()

def thrownIs (type : ThrownType V) (id : FailureId) : Quiet V σ Bool :=
  return ((← Slot.valueFor .thrown id.raw).map (·.hasType type)).getD false

def unwound (id : FailureId) : Quiet V σ Bool := Slot.holds (V := V) .thrown id.raw

def message? (id : FailureId) : Quiet V σ (Option String) :=
  return (← Slot.valueFor (V := V) .thrown id.raw).bind Thrown.text?

def available [Host V σ] (case : Case V) : Argument V → Quiet V σ Bool
  | take key | copy key => Slot.holds key case.id.raw
  | thrown type => thrownIs type case.id
  | message => return (← message? case.id).isSome
  | optional _ | summary | report => return true
  | custom argument => Host.available argument case

/-- Takes the thrown object if it has the type; any other object goes back. -/
def takeThrown [Host V σ] (type : ThrownType V) (id : FailureId) :
    Quiet V σ (Option (Thrown V)) := do
  match ← Slot.takeFor .thrown id.raw with
  | none => return none
  | some object =>
      if object.hasType type then
        return some object
      else
        discard (record .thrown object id)
        return none

def presentNames (id : FailureId) : List (Key V) → Quiet V σ (List String)
  | [] => return []
  | key :: rest => do
      let held ← Slot.holds key id.raw
      let later ← presentNames id rest
      return if held then key.name :: later else later

def makeReport (case : Case V) : Quiet V σ Report := do
  let present ← presentNames case.id (case.interest.keys.filter fun key => !key.isInternal)
  let thrown ← unwound case.id
  let dropped ← Slot.valueFor (V := V) .tally case.id.raw
  return ⟨case.id, thrown, present, dropped⟩

def produce [Host V σ] (case : Case V) : Argument V → Quiet V σ (Option (Reading V))
  | take key => return (← Slot.takeFor key case.id.raw).map (.take key)
  | copy key => return (← Slot.valueFor key case.id.raw).map (.copy key)
  | optional inner => do
      if ← inner.available case then
        return some (.optional (← inner.produce case))
      else
        return some (.optional none)
  | thrown type => return (← takeThrown type case.id).map .thrown
  | message => return (← message? case.id).map .message
  | summary => return some (.summary case.id (← unwound case.id))
  | report => return some (.report (← makeReport case))
  | custom argument => return (← Host.produced argument).map .custom

end Argument

namespace Arguments

variable {V : Vocabulary} {σ : Type}

def signature (arguments : List (Argument V)) : String := Text.tuple (arguments.map Argument.name)

def interest (arguments : List (Argument V)) : Interest V :=
  .ofList (arguments.filterMap Argument.declaration?)

def always (arguments : List (Argument V)) : Bool := arguments.all Argument.always

def takenName : Key V → String
  | .thrown => "thrown object"
  | key => key.name

def repeated? : List (Key V) → List (Key V) → Option (Key V)
  | _, [] => none
  | earlier, key :: rest =>
      if key ∈ earlier then some key else repeated? (earlier ++ [key]) rest

def conflict? (arguments : List (Argument V)) : Option (Key V) :=
  repeated? [] (arguments.filterMap Argument.taken?)

def conflictText (key : Key V) : String :=
  "handler moves \x60" ++ takenName key ++ "\x60 out of its slot more than once"

def announce [Host V σ] (before : Interest V) : List (Argument V) → Quiet V σ Unit
  | [] => pure ()
  | argument :: rest => do
      argument.announce before.size
      announce (before.extend argument.declaration?.toList) rest

def available [Host V σ] (case : Case V) : List (Argument V) → Quiet V σ Bool
  | [] => return true
  | argument :: rest => do
      if ← argument.available case then available case rest else return false

abbrev Place (V : Vocabulary) := Argument V × Option (Reading V)

/-- Produces the arguments that take, or those that do not, and leaves the others as they are. It
stops at one that cannot be produced, and says whether there was none. -/
def produceSome [Host V σ] (case : Case V) (taking : Bool) :
    List (Place V) → Quiet V σ (Bool × List (Place V))
  | [] => return (true, [])
  | (argument, reading) :: rest => do
      if argument.takes = taking then
        match ← argument.produce case with
        | none => return (false, (argument, none) :: rest)
        | some reading =>
            let (complete, later) ← produceSome case taking rest
            return (complete, (argument, some reading) :: later)
      else
        let (complete, later) ← produceSome case taking rest
        return (complete, (argument, reading) :: later)

/-- Produces every argument, the taking ones last. If one cannot be produced, what was taken for the
others ends. -/
def produce [Host V σ] (case : Case V) (arguments : List (Argument V)) :
    Quiet V σ (Option (List (Reading V))) := do
  let (reading, partly) ← produceSome case false (arguments.map fun argument => (argument, none))
  let (complete, places) ← if reading then produceSome case true partly else pure (false, partly)
  let readings := places.filterMap Prod.snd
  if complete then return some readings
  readings.forM Reading.discard
  return none

theorem conflict?_nil : conflict? ([] : List (Argument V)) = none := rfl

theorem repeated?_eq_none {earlier keys : List (Key V)} :
    repeated? earlier keys = none ↔ keys.Nodup ∧ ∀ key ∈ keys, key ∉ earlier := by
  induction keys generalizing earlier with
  | nil => simp [repeated?]
  | cons key rest ih =>
      by_cases met : key ∈ earlier
      · simp [repeated?, met]
      · rw [repeated?, if_neg met, ih]
        have split : (∀ k ∈ rest, k ∉ earlier ++ [key]) ↔ key ∉ rest ∧ ∀ k ∈ rest, k ∉ earlier := by
          simp only [List.mem_append, List.mem_singleton, not_or]
          exact ⟨fun apart =>
              ⟨fun again => (apart key again).2 rfl, fun k listed => (apart k listed).1⟩,
            fun apart k listed => ⟨apart.2 k listed, fun same => apart.1 (same ▸ listed)⟩⟩
        rw [split, List.nodup_cons]
        constructor
        · rintro ⟨once, absent, apart⟩
          exact ⟨⟨absent, once⟩, by simpa [met] using apart⟩
        · rintro ⟨⟨absent, once⟩, apart⟩
          exact ⟨once, absent, fun k listed => apart k (List.mem_cons_of_mem _ listed)⟩

end Arguments

end FaultRelay

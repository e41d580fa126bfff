import FaultRelay.Proofs.GuardTarget
import FaultRelay.Proofs.Operation

/-! Errands: what a thread does with the library, down to any depth of blocks and handlers. An errand
is read twice. To `run` it is to do what it says; its `bare` reading says what is left of it when the
thread has no storage any more, and there are no slots in that reading: nothing is opened, looked up,
lent, taken or kept, tests and callbacks do not occur, and of each list of handlers there is only the
first that asks for nothing. -/
namespace FaultRelay

variable {V : Vocabulary} {σ α ρ : Type}

/-- What a handler with arguments of the library's own looks at. What it does is told apart. -/
structure Listener (V : Vocabulary) (σ : Type) where
  arguments : List (Argument V)
  conditions : List (Condition V σ)
  builtIn : ∀ argument ∈ arguments, argument.isBuiltIn = true
  free : ¬Arguments.Collide arguments

/-- What the argument is where no slot is open; none if it is not available there. -/
def Argument.blank? (id : FailureId) : Argument V → Option (Reading V)
  | optional inner => some (.optional (inner.blank? id))
  | summary => some (.summary id false)
  | report => some (.report ⟨id, false, [], none⟩)
  | take _ | copy _ | thrown _ | message | custom _ => none

namespace Listener

def handler (listener : Listener V σ) (respond : List (Reading V) → Act V σ ρ) : Handler V σ ρ :=
  ⟨listener.arguments, listener.conditions, respond⟩

def interest (listener : Listener V σ) : Interest V :=
  (Arguments.interest listener.arguments).extend (listener.conditions.map (.of ·.key))

def acceptsAll (listener : Listener V σ) : Bool :=
  listener.conditions.isEmpty && Arguments.always listener.arguments

def blanks (id : FailureId) (listener : Listener V σ) : List (Reading V) :=
  listener.arguments.filterMap (Argument.blank? id)

def chain (listeners : List (Listener V σ)) (respond : Nat → List (Reading V) → Act V σ ρ) :
    Chain V σ ρ :=
  .ofList (listeners.zipIdx.map fun place => place.1.handler (respond place.2))

def allInterest (listeners : List (Listener V σ)) : Interest V :=
  listeners.foldl (fun interest listener => interest.merge listener.interest) .empty

def scope (listeners : List (Listener V σ)) : Scope V :=
  ⟨.ofList (listeners.flatMap fun listener => listener.interest.declarations)⟩

def first? (listeners : List (Listener V σ)) : Option (Listener V σ × Nat) :=
  listeners.zipIdx.find? fun place => place.1.acceptsAll

end Listener

structure Panel (V : Vocabulary) (σ : Type) where
  listeners : List (Listener V σ)
  ends : ∃ last, listeners.getLast? = some last ∧ last.acceptsAll = true

namespace Panel

theorem total_ends (panel : Panel V σ) (respond : Nat → List (Reading V) → Act V σ ρ) :
    ∃ last, (Listener.chain panel.listeners respond).handlers.getLast? = some last ∧
      last.acceptsAll = true := by
  obtain ⟨last, final, always⟩ := panel.ends
  refine ⟨last.handler (respond (panel.listeners.length - 1)), ?_, always⟩
  rw [Listener.chain, Chain.handlers_ofList, List.getLast?_map, List.getLast?_zipIdx, final]
  simp

def total (panel : Panel V σ) (respond : Nat → List (Reading V) → Act V σ ρ) : TotalChain V σ ρ :=
  ⟨Listener.chain panel.listeners respond, panel.total_ends respond⟩

theorem first_isSome (panel : Panel V σ) : (Listener.first? panel.listeners).isSome = true := by
  obtain ⟨last, final, always⟩ := panel.ends
  obtain ⟨index, listed⟩ := List.mem_iff_getElem?.1 (List.mem_of_getLast? final)
  refine List.find?_isSome.2 ⟨(last, index), ?_, always⟩
  exact List.mem_zipIdx_iff_getElem?.2 listed

def first (panel : Panel V σ) : Listener V σ × Nat :=
  (Listener.first? panel.listeners).get panel.first_isSome

end Panel

/-- The operation is one step: it runs no code that it was handed, wherever no slot is open. -/
def Operation.isStep : Operation V σ → Bool
  | declare arguments => arguments.all Argument.isBuiltIn
  | dispatch .. | dispatchTotal .. | handleAll .. | handleSome .. | catchUnwinding .. | catchBoth ..
  | pack .. => false
  | _ => true

/-- What a thread does. Code that is handed to an operation and that runs only on what a slot holds,
or only if a slot is open, may be any. -/
inductive Errand (V : Vocabulary) (σ : Type) : Type → Type 1
  | done {α : Type} (value : α) : Errand V σ α
  | andThen {α β : Type} (errand : Errand V σ α) (next : α → Errand V σ β) : Errand V σ β
  | own {α : Type} (change : σ → α × σ) : Errand V σ α
  | step (operation : Operation V σ) (single : operation.isStep = true) : Errand V σ (Reply V σ)
  | attempt {α : Type} (body : Errand V σ α) : Errand V σ (Except (Thrown V) α)
  | within {α : Type} (scope : Scope V) (body : OpenScope V → Errand V σ α) : Errand V σ α
  | under {α : Type} (context : Context V (Deferred V σ)) (body : Errand V σ α) : Errand V σ α
  | dispatch {ρ : Type} (listeners : List (Listener V σ))
      (respond : Nat → List (Reading V) → Errand V σ ρ) (id : FailureId) : Errand V σ (Outcome ρ)
  | dispatchTotal {ρ : Type} (panel : Panel V σ) (respond : Nat → List (Reading V) → Errand V σ ρ)
      (id : FailureId) : Errand V σ ρ
  | handleAll {ρ : Type} (body : Errand V σ (Except FailureId ρ)) (panel : Panel V σ)
      (respond : Nat → List (Reading V) → Errand V σ ρ) : Errand V σ ρ
  | handleSome {α : Type} (body : Errand V σ (Except FailureId α))
      (listeners : List (Listener V σ))
      (respond : Nat → List (Reading V) → Errand V σ (Except FailureId α)) :
      Errand V σ (Except FailureId α)
  | catchUnwinding {ρ : Type} (body : Errand V σ ρ) (panel : Panel V σ)
      (respond : Nat → List (Reading V) → Errand V σ ρ) : Errand V σ ρ
  | catchBoth {ρ : Type} (body : Errand V σ (Except FailureId ρ)) (panel : Panel V σ)
      (respond : Nat → List (Reading V) → Errand V σ ρ) : Errand V σ ρ
  | pack {α : Type} (keys : List (Key V)) (body : Errand V σ (Except FailureId α)) :
      Errand V σ (Except (Parcel V) α)

def Errand.run [Host V σ] {α : Type} : Errand V σ α → Act V σ α
  | done value => pure value
  | andThen errand next => errand.run >>= fun value => (next value).run
  | own change => quietly (Quiet.own change)
  | step operation _ => operation.run
  | attempt body => body.run.attempt
  | within scope body => scope.during fun active => (body active).run
  | under context body => Guard.around (fun _ code => code) context body.run
  | dispatch listeners respond id =>
      (Listener.chain listeners fun index readings => (respond index readings).run).dispatch id
  | dispatchTotal panel respond id =>
      (panel.total fun index readings => (respond index readings).run).dispatch id
  | handleAll body panel respond =>
      FaultRelay.handleAll body.run (panel.total fun index readings => (respond index readings).run)
  | handleSome body listeners respond =>
      FaultRelay.handleSome body.run
        (Listener.chain listeners fun index readings => (respond index readings).run)
  | catchUnwinding body panel respond =>
      FaultRelay.catchUnwinding body.run
        (panel.total fun index readings => (respond index readings).run)
  | catchBoth body panel respond =>
      FaultRelay.catchBoth body.run (panel.total fun index readings => (respond index readings).run)
  | pack keys body => Parcel.pack keys body.run

namespace Bare

variable [Host V σ]

/-- Nobody waits for a payload of the type. The settings are asked, but there is no tally. -/
def miss (key : Key V) (id : FailureId) : Quiet V σ Unit := do
  emit (.strayed key.name id)
  discard Settings.inForce

def lose (key : Key V) (value : key.Value) (id : FailureId) : Quiet V σ Unit := do
  release key value
  miss key id

def loseAll : List (Payload V) → FailureId → Quiet V σ Unit
  | [], _ => pure ()
  | payload :: rest, id => do
      lose payload.key payload.value id
      loseAll rest id

/-- A scope is a token and its part in the count of those that tally. -/
def enter (scope : Scope V) : Quiet V σ (OpenScope V) := do
  let token ← Token.next
  scope.interest.keys.forM fun key => emit (.opened key.name 0)
  let tallies := scope.interest.tallies
  if tallies then
    Quiet.modifyThread fun thread => { thread with tallying := thread.tallying + 1 }
  emit (.activated token.value scope.interest.size)
  return ⟨scope.interest, token, tallies⟩

def leave (active : OpenScope V) : Quiet V σ Unit := do
  if active.tallies then
    Quiet.modifyThread fun thread => { thread with tallying := thread.tallying - 1 }
  emit (.closed active.token.value)

def during (scope : Scope V) (body : OpenScope V → Act V σ α) : Act V σ α := do
  let active ← quietly (enter scope)
  (body active).ensuring (quietly (leave active))

def fire (context : Context V (Deferred V σ)) (id : FailureId) : Quiet V σ Unit :=
  match context with
  | .prepared payloads => loseAll payloads id
  | .deferred key _ => miss key id

/-- A guard goes by the identities of the thread as ever. -/
def drop (guard : Guard V (Deferred V σ)) : Quiet V σ Unit := do
  match ← guard.target with
  | some id => fire guard.context id
  | none => guard.dismiss

def under (context : Context V (Deferred V σ)) (body : Act V σ α) : Act V σ α := do
  let guard ← quietly (Guard.arm context)
  body.ensuring (quietly (drop guard))

def keep (object : Thrown V) : Quiet V σ FailureId := do
  let id ← object.identify
  emit (.caught id)
  lose .thrown object id
  return id

def answer (place : Listener V σ × Nat) (respond : Nat → List (Reading V) → Act V σ ρ)
    (id : FailureId) : Act V σ ρ := do
  quietly (emit (.selected id place.2 (Arguments.signature place.1.arguments)))
  respond place.2 (place.1.blanks id)

def outcome (respond : Nat → List (Reading V) → Act V σ ρ) (id : FailureId) :
    Option (Listener V σ × Nat) → Act V σ (Outcome ρ)
  | some place => .handled <$> answer place respond id
  | none => do
      quietly (emit (.unmatched id))
      return .unmatched id

def dispatch (listeners : List (Listener V σ)) (respond : Nat → List (Reading V) → Act V σ ρ)
    (id : FailureId) : Act V σ (Outcome ρ) :=
  outcome respond id (Listener.first? listeners)

def handleAll (body : Act V σ (Except FailureId α)) (panel : Panel V σ)
    (respond : Nat → List (Reading V) → Act V σ α) : Act V σ α :=
  during (Listener.scope panel.listeners) fun _ => do
    match ← body with
    | .ok value => return value
    | .error id => answer panel.first respond id

def handleSome (body : Act V σ (Except FailureId α)) (listeners : List (Listener V σ))
    (respond : Nat → List (Reading V) → Act V σ (Except FailureId α)) :
    Act V σ (Except FailureId α) :=
  during (Listener.scope listeners) fun _ => do
    match ← body with
    | .ok value => return .ok value
    | .error id =>
        match ← dispatch listeners respond id with
        | .handled result => return result
        | .unmatched id => return .error id

def catchUnwinding (body : Act V σ α) (panel : Panel V σ)
    (respond : Nat → List (Reading V) → Act V σ α) : Act V σ α :=
  during ⟨(Listener.allInterest panel.listeners).insertKey .thrown⟩ fun _ => do
    match ← body.attempt with
    | .ok value => return value
    | .error object => answer panel.first respond (← quietly (keep object))

def catchBoth (body : Act V σ (Except FailureId α)) (panel : Panel V σ)
    (respond : Nat → List (Reading V) → Act V σ α) : Act V σ α :=
  during ⟨(Listener.allInterest panel.listeners).insertKey .thrown⟩ fun _ => do
    match ← body.attempt with
    | .ok (.ok value) => return value
    | .ok (.error id) => answer panel.first respond id
    | .error object => answer panel.first respond (← quietly (keep object))

def pack (keys : List (Key V)) (body : Act V σ (Except FailureId α)) :
    Act V σ (Except (Parcel V) α) :=
  during ⟨.ofKeys keys⟩ fun _ => do
    match ← body with
    | .ok value => return .ok value
    | .error id => return .error ⟨id, []⟩

end Bare

/-- What is left of a step. Operations that do not look at the slots are left as they are. -/
def Operation.bare [Host V σ] : Operation V σ → Act V σ (Reply V σ)
  | newFailure payloads => .identity <$> quietly (do
      let id ← FailureId.mint
      Bare.loseAll payloads id
      return id)
  | record key value id => .flag <$> quietly (do
      Bare.lose key value id
      return false)
  | openFor _ _ | depth _ | types => return .count 0
  | close key _ => return .closed key .notOpen
  | put key _ value => return .stored key (.rejected value)
  | editTop _ _ | isOpen _ | holds _ _ => return .flag false
  | topId _ => return .tag none
  | valueFor key _ | takeFor key _ => return .value key none
  | lend _ _ _ | endStorage => return .done
  | enter scope => .scope <$> quietly (Bare.enter scope)
  | leave active => (fun _ => .done) <$> quietly (Bare.leave active)
  | drop guard => (fun _ => .done) <$> quietly (Bare.drop guard)
  | collect _ _ => return .payloads []
  | unpack parcel => .identity <$> quietly (do
      emit (.replaying parcel.id parcel.size)
      Bare.loseAll parcel.payloads parcel.id
      return parcel.id)
  | keep object => .identity <$> quietly (Bare.keep object)
  | operation => operation.run

namespace Errand

def bare [Host V σ] {α : Type} : Errand V σ α → Act V σ α
  | done value => pure value
  | andThen errand next => errand.bare >>= fun value => (next value).bare
  | own change => quietly (Quiet.own change)
  | step operation _ => operation.bare
  | attempt body => body.bare.attempt
  | within scope body => Bare.during scope fun active => (body active).bare
  | under context body => Bare.under context body.bare
  | dispatch listeners respond id =>
      Bare.dispatch listeners (fun index readings => (respond index readings).bare) id
  | dispatchTotal panel respond id =>
      Bare.answer panel.first (fun index readings => (respond index readings).bare) id
  | handleAll body panel respond =>
      Bare.handleAll body.bare panel fun index readings => (respond index readings).bare
  | handleSome body listeners respond =>
      Bare.handleSome body.bare listeners fun index readings => (respond index readings).bare
  | catchUnwinding body panel respond =>
      Bare.catchUnwinding body.bare panel fun index readings => (respond index readings).bare
  | catchBoth body panel respond =>
      Bare.catchBoth body.bare panel fun index readings => (respond index readings).bare
  | pack keys body => Bare.pack keys body.bare

end Errand

/-- The step may unwind with the object: it raises a failure, or unwinds for reasons of its own, or
declares a handler that takes out of one slot twice. -/
def Operation.Throws : Operation V σ → Thrown V → Prop
  | raise id, object => object = .unwound id
  | unwind own, object => object = own
  | declare arguments, object => ∃ key, Arguments.conflict? arguments = some key ∧
      object = .message (Arguments.conflictText key)
  | _, _ => False

/-- Some step of the errand may unwind with the object, and no block around that step stops it. -/
def Errand.Throws {α : Type} : Errand V σ α → Thrown V → Prop
  | done _, _ | own _, _ | attempt _, _ => False
  | andThen errand next, object => errand.Throws object ∨ ∃ value, (next value).Throws object
  | step operation _, object => operation.Throws object
  | within _ body, object => ∃ active, (body active).Throws object
  | under _ body, object | pack _ body, object => body.Throws object
  | dispatch _ respond _, object | dispatchTotal _ respond _, object
  | catchUnwinding _ _ respond, object | catchBoth _ _ respond, object =>
      ∃ index readings, (respond index readings).Throws object
  | handleAll body _ respond, object =>
      body.Throws object ∨ ∃ index readings, (respond index readings).Throws object
  | handleSome body _ respond, object =>
      body.Throws object ∨ ∃ index readings, (respond index readings).Throws object

end FaultRelay

import FaultRelay.Proofs.Program

/-! The handling blocks as programs. All four open the slots of their handlers, try a body, and then
go on with its value or with what dispatch makes of its failure; they differ in the scope, in what
counts as a failure, and in what becomes of one that nobody accepts. Dispatch in turn selects a
handler with its readings, and then runs it. -/
namespace FaultRelay

variable {V : Vocabulary} {σ α β ρ : Type}

structure Handler.Within [Host V σ] (range : Range V σ) (interest : Interest V)
    (handler : Handler V σ ρ) : Prop where
  arguments : ∀ argument ∈ handler.arguments, ∀ key ∈ argument.slots interest, range.slot key
  conditions : ∀ condition ∈ handler.conditions, range.slot condition.key
  tests : ∀ key test, Condition.holds key test ∈ handler.conditions →
    ∀ value, Program range [] (test value) fun _ => []
  responds : ∀ readings, Program range [] (handler.respond readings) fun _ => []

def Chain.Within [Host V σ] (range : Range V σ) (chain : Chain V σ ρ) : Prop :=
  ∀ handler ∈ chain.handlers, handler.Within range chain.interest

structure Selection (V : Vocabulary) (σ ρ : Type) where
  index : Nat
  handler : Handler V σ ρ
  readings : List (Reading V)

/-- The handlers, if each only tells that it was found. -/
def tellers : Nat → List (Handler V σ ρ) → List (Handler V σ (Selection V σ ρ))
  | _, [] => []
  | index, handler :: rest =>
      ⟨handler.arguments, handler.conditions, fun readings => return ⟨index, handler, readings⟩⟩ ::
        tellers (index + 1) rest

/-- Dispatch up to the moment when the selected handler would run. -/
def Chain.select [Host V σ] (chain : Chain V σ ρ) (id : FailureId) :
    Act V σ (Outcome (Selection V σ ρ)) :=
  dispatchFrom ⟨id, chain.interest⟩ 0 (tellers 0 chain.handlers)

def Outcome.respond : Outcome (Selection V σ ρ) → Act V σ (Outcome ρ)
  | .handled found => .handled <$> found.handler.respond found.readings
  | .unmatched id => return .unmatched id

section Dispatching

variable [Host V σ]

theorem dispatchFrom_tellers (case : Case V) (place index : Nat) (handlers : List (Handler V σ ρ)) :
    dispatchFrom case place handlers =
      dispatchFrom case place (tellers index handlers) >>= Outcome.respond := by
  induction handlers generalizing place index with
  | nil => simp [dispatchFrom, tellers, Outcome.respond]
  | cons handler rest ih =>
      simp only [dispatchFrom, tellers, bind_assoc]
      refine bind_congr fun accepted => ?_
      cases accepted with
      | false => exact ih (place + 1) (index + 1)
      | true =>
          simp only [if_true, bind_assoc, Handler.answer?]
          refine bind_congr fun _ => bind_congr fun produced => ?_
          cases produced with
          | none =>
              simp only [pure_bind]
              rfl
          | some readings => simp [Outcome.respond]

theorem Chain.dispatch_eq (chain : Chain V σ ρ) (id : FailureId) :
    chain.dispatch id = chain.select id >>= Outcome.respond :=
  dispatchFrom_tellers ⟨id, chain.interest⟩ 0 0 chain.handlers

end Dispatching

namespace Program

variable [Host V σ] {range : Range V σ} {chain : Chain V σ ρ}

theorem testAll {id : FailureId} {conditions : List (Condition V σ)}
    (within : ∀ condition ∈ conditions, range.slot condition.key)
    (tests : ∀ key test, Condition.holds key test ∈ conditions →
      ∀ value, Program range [] (test value) fun _ => []) :
    Program range [] (Condition.testAll id conditions) fun _ => [] := by
  induction conditions with
  | nil => exact just true
  | cons condition rest ih =>
      obtain ⟨own, others⟩ := List.forall_mem_cons.1 within
      have asked : Program range [] (condition.test id) fun _ => [] := by
        cases condition with
        | holds key test =>
            refine bind (lend own id.raw (tests key test List.mem_cons_self)) fun found => ?_
            cases found <;> exact just _
        | thrown type => exact quiet (.thrownIs own type id)
      refine bind asked fun found => ?_
      cases found with
      | true => exact ih others fun key test listed => tests key test (List.mem_cons_of_mem _ listed)
      | false => exact just false

theorem accepts {handler : Handler V σ ρ} {case : Case V}
    (within : handler.Within range case.interest) :
    Program range [] (handler.accepts case) fun _ => [] := by
  refine bind (quiet (.availableAll within.arguments)) fun found => ?_
  cases found with
  | true => exact testAll within.conditions within.tests
  | false => exact just false

theorem answer {handler : Handler V σ ρ} {case : Case V} (tallies : range.slot .tally)
    (within : handler.Within range case.interest) :
    Program range [] (handler.answer? case) fun _ => [] := by
  refine bind (quiet (.produceAll tallies within.arguments)) fun produced => ?_
  cases produced with
  | none => exact just none
  | some readings => exact map some (within.responds readings)

theorem dispatchFrom {case : Case V} {handlers : List (Handler V σ ρ)} (tallies : range.slot .tally)
    (within : ∀ handler ∈ handlers, handler.Within range case.interest) (index : Nat) :
    Program range [] (dispatchFrom case index handlers) fun _ => [] := by
  induction handlers generalizing index with
  | nil => exact bind (quiet (.step (.emit _))) fun _ => just _
  | cons handler rest ih =>
      obtain ⟨own, others⟩ := List.forall_mem_cons.1 within
      refine bind (accepts own) fun accepted => ?_
      cases accepted with
      | false => exact ih others (index + 1)
      | true =>
          refine bind (quiet (.step (.emit _))) fun _ => bind (answer tallies own) fun answer => ?_
          cases answer with
          | some value => exact just _
          | none => exact unwind _

theorem dispatch (tallies : range.slot .tally) (within : chain.Within range) (id : FailureId) :
    Program range [] (chain.dispatch id) fun _ => [] :=
  @dispatchFrom _ _ _ _ _ ⟨id, chain.interest⟩ _ tallies within 0

theorem select (tallies : range.slot .tally) (within : chain.Within range) (id : FailureId) :
    Program range [] (chain.select id) fun _ => [] := by
  have told : ∀ (handlers : List (Handler V σ ρ)) (index : Nat),
      (∀ handler ∈ handlers, handler.Within range chain.interest) →
        ∀ handler ∈ tellers index handlers, handler.Within range chain.interest := by
    intro handlers
    induction handlers with
    | nil => simp [tellers]
    | cons first rest ih =>
        intro index within
        obtain ⟨own, others⟩ := List.forall_mem_cons.1 within
        refine List.forall_mem_cons.2 ⟨?_, ih (index + 1) others⟩
        exact { own with responds := fun readings => just _ }
  exact @dispatchFrom _ _ _ _ _ ⟨id, chain.interest⟩ _ tallies (told chain.handlers 0 within) 0

end Program

inductive Handling (V : Vocabulary) (σ : Type) : Type → Type 1
  | all {ρ : Type} (body : Act V σ (Except FailureId ρ)) (total : TotalChain V σ ρ) :
      Handling V σ ρ
  | some {α : Type} (body : Act V σ (Except FailureId α))
      (chain : Chain V σ (Except FailureId α)) : Handling V σ (Except FailureId α)
  | unwinding {ρ : Type} (body : Act V σ ρ) (total : TotalChain V σ ρ) : Handling V σ ρ
  | both {ρ : Type} (body : Act V σ (Except FailureId ρ)) (total : TotalChain V σ ρ) :
      Handling V σ ρ

namespace Handling

variable [Host V σ] {range : Range V σ}

def run : Handling V σ ρ → Act V σ ρ
  | .all body total => handleAll body total
  | .some body chain => handleSome body chain
  | .unwinding body total => catchUnwinding body total
  | .both body total => catchBoth body total

def scope : Handling V σ ρ → Scope V
  | .all _ total => .forHandlers total.chain.handlers
  | .some _ chain => .forHandlers chain.handlers
  | .unwinding _ total | .both _ total => .catching total.chain

def Answer : Handling V σ ρ → Type
  | .some (α := α) _ _ => Except FailureId α
  | .all (ρ := ρ) _ _ | .both (ρ := ρ) _ _ => Except FailureId ρ
  | .unwinding (ρ := ρ) _ _ => ρ

def body : (block : Handling V σ ρ) → Act V σ block.Answer
  | .all body _ | .some body _ | .unwinding body _ | .both body _ => body

/-- What the body returns when it does not fail. -/
def Value : Handling V σ ρ → Type
  | .some (α := α) _ _ => α
  | .all (ρ := ρ) _ _ | .unwinding (ρ := ρ) _ _ | .both (ρ := ρ) _ _ => ρ

/-- The body, with what the block takes for a failure. -/
def trial : (block : Handling V σ ρ) → Act V σ (Except FailureId block.Value)
  | .all body _ => body
  | .some body _ => body
  | .unwinding body _ => do
      match ← body.attempt with
      | .ok value => return .ok value
      | .error object => return .error (← quietly object.keep)
  | .both body _ => do
      match ← body.attempt with
      | .ok ended => return ended
      | .error object => return .error (← quietly object.keep)

def chain : Handling V σ ρ → Chain V σ ρ
  | .all _ total | .unwinding _ total | .both _ total => total.chain
  | .some _ chain => chain

def settle : (block : Handling V σ ρ) → block.Value → ρ
  | .all _ _, value | .unwinding _ _, value | .both _ _, value => value
  | .some _ _, value => .ok value

def conclude : Handling V σ ρ → Outcome ρ → Act V σ ρ
  | _, .handled value => return value
  | .some _ _, .unmatched id => return .error id
  | .all _ _, .unmatched id | .unwinding _ _, .unmatched id | .both _ _, .unmatched id =>
      Act.unwind (.message (uncaughtText id))

def proceed (block : Handling V σ ρ) : Except FailureId block.Value → Act V σ ρ
  | .ok value => return block.settle value
  | .error id => do block.conclude (← block.chain.dispatch id)

def inside (block : Handling V σ ρ) : Act V σ ρ := block.trial >>= block.proceed

theorem run_eq (block : Handling V σ ρ) : block.run = block.scope.during fun _ => block.inside := by
  cases block with
  | all body total =>
      refine congrArg (Scope.during _) (funext fun _ => bind_congr fun ended => ?_)
      cases ended with
      | ok value => rfl
      | error id => exact bind_congr fun outcome => by cases outcome <;> rfl
  | some body chain =>
      refine congrArg (Scope.during _) (funext fun _ => bind_congr fun ended => ?_)
      cases ended with
      | ok value => rfl
      | error id => exact bind_congr fun outcome => by cases outcome <;> rfl
  | unwinding body total =>
      refine congrArg (Scope.during _) (funext fun _ => ?_)
      change _ = (body.attempt >>= fun ended => _) >>= fun ended => _
      rw [bind_assoc]
      refine bind_congr fun ended => ?_
      cases ended with
      | ok value => rfl
      | error object =>
          simp only [bind_assoc]
          exact bind_congr fun id => bind_congr fun outcome => by cases outcome <;> rfl
  | both body total =>
      refine congrArg (Scope.during _) (funext fun _ => ?_)
      change _ = (body.attempt >>= fun ended => _) >>= fun ended => _
      rw [bind_assoc]
      refine bind_congr fun ended => ?_
      rcases ended with object | (id | value)
      · simp only [bind_assoc]
        exact bind_congr fun id => bind_congr fun outcome => by cases outcome <;> rfl
      · exact bind_congr fun outcome => by cases outcome <;> rfl
      · rfl

structure Within (range : Range V σ) (block : Handling V σ ρ) : Prop where
  body : Program range [] block.body fun _ => []
  chain : block.chain.Within range

theorem proceed_program {block : Handling V σ ρ} (within : block.chain.Within range)
    (tallies : range.slot .tally) (ended : Except FailureId block.Value) :
    Program range [] (block.proceed ended) fun _ => [] := by
  cases ended with
  | ok value => exact .just _
  | error id =>
      refine .bind (.dispatch tallies within id) fun outcome => ?_
      cases outcome with
      | handled value => cases block <;> exact .just _
      | unmatched id =>
          cases block with
          | some => exact .just _
          | all | unwinding | both => exact .unwind _

section Within

variable {block : Handling V σ ρ} (within : block.Within range) (tallies : range.slot .tally)
  (thrown : range.slot .thrown)
include within tallies thrown

theorem trial_program : Program range [] block.trial fun _ => [] := by
  cases block with
  | all body total | some body chain => exact within.body
  | unwinding body total =>
      refine .bind within.body.attempt fun ended => ?_
      cases ended with
      | ok value => exact .just _
      | error object =>
          exact .bind (.quiet (.keep tallies thrown object)) fun _ => .just _
  | both body total =>
      refine .bind within.body.attempt fun ended => ?_
      cases ended with
      | ok ended => exact .just _
      | error object =>
          exact .bind (.quiet (.keep tallies thrown object)) fun _ => .just _

theorem inside_program : Program range [] block.inside fun _ => [] :=
  .bind (trial_program within tallies thrown) (proceed_program within.chain tallies)

/-- A block is a program that has no scope to leave, neither at its start nor at its end. -/
theorem program : Program range [] block.run fun _ => [] := by
  rw [run_eq]
  exact .during _ fun _ => inside_program within tallies thrown

end Within

end Handling

end FaultRelay

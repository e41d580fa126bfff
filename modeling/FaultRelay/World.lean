import FaultRelay.Event
import FaultRelay.Slot.Interest
import FaultRelay.Slot.Store

/-! The state that operations read and change: what all threads share, what belongs to the running
thread, and the state of the host. `Quiet` operations always return; `Act` operations may also
unwind. While an unwinding is under way the thread counts it, so that code run on the way out can
tell. -/
namespace FaultRelay

structure Process where
  drawn : Nat
  settings : Option Settings
  environment : Option (List UInt8)

structure Thread (V : Vocabulary) where
  /-- None once the storage of the thread is gone. -/
  store : Option (Store V)
  lastToken : Nat
  /-- How many open scopes want stray payloads counted. -/
  tallying : Nat
  current : Option FailureId
  reserved : Option FailureId
  unwindings : Nat

structure World (V : Vocabulary) (σ : Type) where
  process : Process
  thread : Thread V
  host : σ

/-- How an operation ends that does not return. -/
inductive Exit (V : Vocabulary) where
  | unwinding (object : Thrown V)
  /-- An unwinding left code that was run because of an unwinding; nothing catches this. -/
  | aborted

abbrev Quiet (V : Vocabulary) (σ : Type) := StateM (World V σ)

abbrev Act (V : Vocabulary) (σ : Type) := ExceptT (Exit V) (Quiet V σ)

def Thread.fresh (V : Vocabulary) : Thread V := ⟨some .empty, 0, 0, none, none, 0⟩

namespace Thread

variable {V : Vocabulary}

def stack (thread : Thread V) (key : Key V) : Stack key.Value :=
  match thread.store with
  | none => .empty
  | some store => store.stack key

/-- Without storage nothing is kept. -/
def setStack (thread : Thread V) (key : Key V) (stack : Stack key.Value) : Thread V :=
  { thread with store := thread.store.map (·.set key stack) }

theorem stack_setStack_same {thread : Thread V} {store : Store V}
    (alive : thread.store = some store) (key : Key V) (stack : Stack key.Value) :
    (thread.setStack key stack).stack key = stack := by
  simp [Thread.stack, setStack, alive]

theorem stack_setStack_other (thread : Thread V) {key other : Key V} (stack : Stack key.Value)
    (differ : other ≠ key) : (thread.setStack key stack).stack other = thread.stack other := by
  cases alive : thread.store <;> simp [Thread.stack, setStack, alive, differ]

end Thread

namespace Quiet

variable {V : Vocabulary} {σ α : Type}

def thread : Quiet V σ (Thread V) := return (← get).thread

def modifyThread (change : Thread V → Thread V) : Quiet V σ Unit :=
  modify fun world => { world with thread := change world.thread }

def modifyHost (change : σ → σ) : Quiet V σ Unit :=
  modify fun world => { world with host := change world.host }

def host : Quiet V σ σ := return (← get).host

end Quiet

def quietly {V : Vocabulary} {σ α : Type} (act : Quiet V σ α) : Act V σ α := fun world =>
  let (value, later) := act world
  (.ok value, later)

namespace Act

variable {V : Vocabulary} {σ α β : Type}

def unwind (object : Thrown V) : Act V σ α := fun world =>
  (.error (.unwinding object),
    { world with thread.unwindings := world.thread.unwindings + 1 })

/-- Runs `act` and stops an unwinding that leaves it. -/
def attempt (act : Act V σ α) : Act V σ (Except (Thrown V) α) := fun world =>
  match act world with
  | (.ok value, world) => (.ok (.ok value), world)
  | (.error (.unwinding object), world) =>
      (.ok (.error object),
        { world with thread.unwindings := world.thread.unwindings - 1 })
  | (.error .aborted, world) => (.error .aborted, world)

/-- Runs `after` when `act` unwinds, and lets the unwinding go on. -/
def onUnwinding (act : Act V σ α) (after : Act V σ Unit) : Act V σ α := fun world =>
  match act world with
  | (.error (.unwinding object), world) =>
      match after world with
      | (.ok (), world) => (.error (.unwinding object), world)
      | (.error _, world) => (.error .aborted, world)
  | ended => ended

def ensuring (act : Act V σ α) (after : Act V σ Unit) : Act V σ α := do
  let value ← act.onUnwinding after
  after
  return value

theorem attempt_pure (value : α) :
    attempt (pure value : Act V σ α) = pure (.ok value) := rfl

theorem attempt_unwind (object : Thrown V) :
    attempt (unwind object : Act V σ α) = pure (.error object) := rfl

theorem ensuring_apply (act : Act V σ α) (after : Act V σ Unit) (world : World V σ) :
    ensuring act after world =
      match act world with
      | (.ok value, world) =>
          match after world with
          | (.ok (), world) => (.ok value, world)
          | (.error exit, world) => (.error exit, world)
      | (.error (.unwinding object), world) =>
          match after world with
          | (.ok (), world) => (.error (.unwinding object), world)
          | (.error _, world) => (.error .aborted, world)
      | (.error .aborted, world) => (.error .aborted, world) := by
  simp only [ensuring, onUnwinding, bind, ExceptT.bind, ExceptT.mk, StateT.bind, ExceptT.bindCont,
    pure, ExceptT.pure]
  rcases act world with ⟨_ | _, later⟩
  · rename_i exit
    cases exit with
    | unwinding object =>
        simp only
        rcases after later with ⟨_ | _, final⟩ <;> rfl
    | aborted => rfl
  · simp only [StateT.bind]
    rcases after later with ⟨_ | _, final⟩ <;> rfl

end Act

end FaultRelay

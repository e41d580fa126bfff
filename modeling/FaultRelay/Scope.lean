import FaultRelay.Recording

/-! Scopes: sets of payload types that are open for a stretch of a run. An open scope owns its
frames by a token of its own and closes them in reverse order. -/
namespace FaultRelay

structure Scope (V : Vocabulary) where
  interest : Interest V

structure OpenScope (V : Vocabulary) where
  interest : Interest V
  token : Token
  /-- Whether the scope switched the tally on. -/
  tallies : Bool

def Token.next {V : Vocabulary} {σ : Type} : Quiet V σ Token := do
  let n := (← Quiet.thread).lastToken + 1
  Quiet.modifyThread fun thread => { thread with lastToken := n }
  return .numbered n

namespace Scope

variable {V : Vocabulary} {σ α : Type} [Host V σ]

def form (scope : Scope V) : String := Text.fields "Scope" [("keys", scope.interest.form)]

def openSlot (owner : Token) (key : Key V) : Quiet V σ Unit := do
  let depth ← Slot.openFor key owner
  emit (.opened key.name depth)

/-- Closes one slot. A value that leaves the stack ends after the observer was told. -/
def closeSlot (owner : Token) (key : Key V) : Quiet V σ Unit := do
  match ← Slot.close key owner with
  | .retained | .released | .notOpen => pure ()
  | .propagated id replaced =>
      emit (.propagated key.name id)
      match replaced with
      | some value => release key value
      | none => pure ()
  | .discarded id value =>
      emit (.discarded key.name id)
      release key value

def enter (scope : Scope V) : Quiet V σ (OpenScope V) := do
  let token ← Token.next
  scope.interest.keys.forM (openSlot token)
  let tallies := scope.interest.tallies
  if tallies then
    Quiet.modifyThread fun thread => { thread with tallying := thread.tallying + 1 }
  emit (.activated token.value scope.interest.size)
  return ⟨scope.interest, token, tallies⟩

end Scope

namespace OpenScope

variable {V : Vocabulary} {σ : Type} [Host V σ]

def form (scope : OpenScope V) : String :=
  Text.fields "ActiveScope" [("token", scope.token.form), ("keys", scope.interest.form)]

def leave (scope : OpenScope V) : Quiet V σ Unit := do
  scope.interest.keys.reverse.forM (Scope.closeSlot scope.token)
  if scope.tallies then
    Quiet.modifyThread fun thread => { thread with tallying := thread.tallying - 1 }
  emit (.closed scope.token.value)

end OpenScope

def Scope.during {V : Vocabulary} {σ α : Type} [Host V σ] (scope : Scope V)
    (body : OpenScope V → Act V σ α) : Act V σ α := do
  let active ← quietly scope.enter
  (body active).ensuring (quietly active.leave)

end FaultRelay

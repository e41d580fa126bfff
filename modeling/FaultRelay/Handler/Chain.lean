import FaultRelay.Handler.Basic
import FaultRelay.Scope

/-! Chains of handlers in the order they are tried. A total chain ends with a handler that accepts
every failure. -/
namespace FaultRelay

structure Chain (V : Vocabulary) (σ ρ : Type) where
  handlers : List (Handler V σ ρ)
  interest : Interest V

structure TotalChain (V : Vocabulary) (σ ρ : Type) where
  chain : Chain V σ ρ
  ends : ∃ last, chain.handlers.getLast? = some last ∧ last.acceptsAll = true

inductive ChainFault where
  | empty
  | missingCatchAll
deriving DecidableEq

namespace ChainFault

def form : ChainFault → String
  | empty => "Empty"
  | missingCatchAll => "MissingCatchAll"

def text : ChainFault → String
  | empty => "handler list is empty"
  | missingCatchAll => "last handler of the list is not a catch-all"

end ChainFault

namespace Chain

variable {V : Vocabulary} {σ ρ : Type}

def empty : Chain V σ ρ := ⟨[], .empty⟩

def add (chain : Chain V σ ρ) (handler : Handler V σ ρ) : Chain V σ ρ :=
  ⟨chain.handlers ++ [handler], chain.interest.merge handler.interest⟩

def ofList (handlers : List (Handler V σ ρ)) : Chain V σ ρ := handlers.foldl add empty

def size (chain : Chain V σ ρ) : Nat := chain.handlers.length

def isEmpty (chain : Chain V σ ρ) : Bool := chain.handlers.isEmpty

def form (chain : Chain V σ ρ) : String := Text.listed (chain.handlers.map Handler.form)

def endWith (chain : Chain V σ ρ) (last : Handler V σ ρ) (always : last.acceptsAll = true) :
    TotalChain V σ ρ :=
  ⟨chain.add last, last, by simp [add], always⟩

def total (chain : Chain V σ ρ) : Except ChainFault (TotalChain V σ ρ) :=
  match final : chain.handlers.getLast? with
  | none => .error .empty
  | some last =>
      if always : last.acceptsAll = true then .ok ⟨chain, last, final, always⟩
      else .error .missingCatchAll

theorem handlers_foldl_add (handlers : List (Handler V σ ρ)) (chain : Chain V σ ρ) :
    (handlers.foldl add chain).handlers = chain.handlers ++ handlers := by
  induction handlers generalizing chain with
  | nil => simp
  | cons handler rest ih => simp [ih, add]

theorem handlers_ofList (handlers : List (Handler V σ ρ)) :
    (ofList handlers).handlers = handlers := by
  simp [ofList, handlers_foldl_add, empty]

end Chain

def Scope.forHandlers {V : Vocabulary} {σ ρ : Type} (handlers : List (Handler V σ ρ)) : Scope V :=
  ⟨.ofList (handlers.flatMap fun handler => handler.interest.declarations)⟩

/-- The scope of a block that catches: the thrown object has a slot too. -/
def Scope.catching {V : Vocabulary} {σ ρ : Type} (chain : Chain V σ ρ) : Scope V :=
  ⟨chain.interest.insertKey .thrown⟩

end FaultRelay

import FaultRelay.Host

/-! A host that keeps accounts: which values of the application were made, and which have ended. An
application supplies the code of its destructors and of its own arguments; that code runs on the
whole world and may record, open scopes and end further values. The library's own values are not in
the accounts. -/
namespace FaultRelay

structure Ledger (V : Vocabulary) (σ : Type) where
  own : σ
  made : List (Payload V)
  ended : List (Payload V)

/-- The code that an application adds to a host that keeps accounts. -/
class Client (V : Vocabulary) (σ : Type) extends Observer σ where
  parting : (kind : V.Kind) → V.Value kind → Quiet V (Ledger V σ) Unit
  declared : V.Custom → Nat → Quiet V (Ledger V σ) Unit
  available : V.Custom → Case V → Quiet V (Ledger V σ) Bool
  produced : V.Custom → Quiet V (Ledger V σ) (Option V.Product)

variable {V : Vocabulary} {σ : Type}

namespace Ledger

def noteMade (payload : Payload V) (ledger : Ledger V σ) : Ledger V σ :=
  if payload.key.isInternal then ledger else { ledger with made := payload :: ledger.made }

def noteEnded (payload : Payload V) (ledger : Ledger V σ) : Ledger V σ :=
  if payload.key.isInternal then ledger else { ledger with ended := payload :: ledger.ended }

end Ledger

namespace World

def noteMade (payload : Payload V) (world : World V (Ledger V σ)) : World V (Ledger V σ) :=
  { world with host := world.host.noteMade payload }

def noteEnded (payload : Payload V) (world : World V (Ledger V σ)) : World V (Ledger V σ) :=
  { world with host := world.host.noteEnded payload }

theorem noteEnded_internal {payload : Payload V} (internal : payload.key.isInternal = true)
    (world : World V (Ledger V σ)) : world.noteEnded payload = world := by
  rw [noteEnded, Ledger.noteEnded, if_pos internal]

theorem noteMade_internal {payload : Payload V} (internal : payload.key.isInternal = true)
    (world : World V (Ledger V σ)) : world.noteMade payload = world := by
  rw [noteMade, Ledger.noteMade, if_pos internal]

end World

instance [Observer σ] : Observer (Ledger V σ) where
  observe event ledger := { ledger with own := Observer.observe event ledger.own }

instance [Client V σ] : Host V (Ledger V σ) where
  destroy kind value := do
    Quiet.modifyHost (·.noteEnded ⟨.app kind, value⟩)
    Client.parting kind value
  declared := Client.declared
  available := Client.available
  produced := Client.produced

structure Unmoved (world later : World V (Ledger V σ)) : Prop where
  store : later.thread.store = world.thread.store
  lastToken : later.thread.lastToken = world.thread.lastToken
  tallying : later.thread.tallying = world.thread.tallying
  made : later.host.made = world.host.made
  ended : later.host.ended = world.host.ended

namespace Unmoved

variable {world later last : World V (Ledger V σ)}

theorem refl (world : World V (Ledger V σ)) : Unmoved world world := ⟨rfl, rfl, rfl, rfl, rfl⟩

theorem trans (first : Unmoved world later) (second : Unmoved later last) : Unmoved world last :=
  ⟨second.store.trans first.store, second.lastToken.trans first.lastToken,
    second.tallying.trans first.tallying, second.made.trans first.made,
    second.ended.trans first.ended⟩

theorem stack (unmoved : Unmoved world later) (key : Key V) :
    later.thread.stack key = world.thread.stack key := by
  unfold Thread.stack
  rw [unmoved.store]

theorem emit [Observer σ] (event : Event) (world : World V (Ledger V σ)) :
    Unmoved world (emit event world).2 := ⟨rfl, rfl, rfl, rfl, rfl⟩

end Unmoved

end FaultRelay

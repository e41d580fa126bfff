import FaultRelay.Slot.Access

/-! Threads. A new thread starts with nothing open, nothing minted and tokens from one; it shares
the counter of identities, the settings and the host with the others. -/
namespace FaultRelay

variable {V : Vocabulary} {σ α : Type}

def Act.onThread (start : Thread V) (act : Act V σ α) : Act V σ α := fun world =>
  let (result, later) := act { world with thread := start }
  (result, { later with thread := world.thread })

/-- Runs `act` on a new thread until that thread has ended, and answers with how `act` ended. -/
def spawn [Host V σ] (act : Act V σ α) : Act V σ (Except (Thrown V) α) :=
  Act.onThread (.fresh V) do
    let ended ← act.attempt
    quietly Slot.endStorage
    return ended

theorem onThread_thread (start : Thread V) (act : Act V σ α) (world : World V σ) :
    (act.onThread start world).2.thread = world.thread := rfl

end FaultRelay

import FaultRelay.World

/-! Drawing identities. All threads draw from one counter; each thread remembers the identity it
handed out last and one it has promised but not handed out yet. -/
namespace FaultRelay.FailureId

variable {V : Vocabulary} {σ : Type}

def draw : Quiet V σ FailureId := fun world =>
  (numbered (world.process.drawn + 1),
    { world with process.drawn := world.process.drawn + 1 })

/-- The promised identity, else a new one. -/
def upcoming : Quiet V σ FailureId := do
  match (← Quiet.thread).reserved with
  | some id => return id
  | none => draw

def mint : Quiet V σ FailureId := do
  let id ← upcoming
  Quiet.modifyThread fun thread => { thread with reserved := none, current := some id }
  return id

/-- Promises the identity that the next `mint` of the thread answers with. -/
def reserve : Quiet V σ FailureId := do
  let id ← upcoming
  Quiet.modifyThread fun thread => { thread with reserved := some id }
  return id

def current : Quiet V σ (Option FailureId) := return (← Quiet.thread).current

theorem upcoming_reserved {world : World V σ} {id : FailureId}
    (promised : world.thread.reserved = some id) : upcoming world = (id, world) := by
  obtain ⟨process, ⟨store, lastToken, tallying, current, reserved, unwindings⟩, host⟩ := world
  cases promised
  rfl

theorem upcoming_unreserved {world : World V σ} (unpromised : world.thread.reserved = none) :
    upcoming world = draw world := by
  obtain ⟨process, ⟨store, lastToken, tallying, current, reserved, unwindings⟩, host⟩ := world
  cases unpromised
  rfl

theorem mint_apply (world : World V σ) :
    mint world = ((upcoming world).1,
      { (upcoming world).2 with
        thread := { (upcoming world).2.thread with
          reserved := none, current := some (upcoming world).1 } }) := rfl

theorem reserve_apply (world : World V σ) :
    reserve world = ((upcoming world).1,
      { (upcoming world).2 with
        thread := { (upcoming world).2.thread with reserved := some (upcoming world).1 } }) := rfl

theorem current_apply (world : World V σ) : current world = (world.thread.current, world) := rfl

theorem mint_reserve (world : World V σ) : mint (reserve world).2 = mint world := by
  rw [mint_apply, reserve_apply, upcoming_reserved rfl, mint_apply]

end FaultRelay.FailureId

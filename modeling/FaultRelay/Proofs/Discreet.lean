import FaultRelay.Proofs.Effects

/-! Hosts to whom it makes no difference what they are told, nor that a value ends. For such a host
leaving a scope is a matter of the stacks alone: the innermost frame of the scope goes from each,
and its value moves to the frame beneath. -/
namespace FaultRelay

variable {V : Vocabulary} {σ : Type}

/-- What an observer keeps of the events may differ between two hosts that are the same. -/
class Discreet (V : Vocabulary) (σ : Type) extends Host V σ where
  Same : σ → σ → Prop
  same : Equivalence Same
  told : ∀ event host, Same (observe event host) host
  inert : ∀ kind value, destroy kind value = pure ()

namespace Thread

def closeAll (owner : Token) (keys : List (Key V)) (thread : Thread V) : Thread V :=
  keys.foldl (fun thread key => thread.setStack key ((thread.stack key).close owner).2) thread

theorem closeAll_cons (owner : Token) (key : Key V) (rest : List (Key V)) (thread : Thread V) :
    closeAll owner (key :: rest) thread =
      closeAll owner rest (thread.setStack key ((thread.stack key).close owner).2) := rfl

@[simp] theorem closeAll_lastToken (owner : Token) (keys : List (Key V)) (thread : Thread V) :
    (closeAll owner keys thread).lastToken = thread.lastToken := by
  induction keys generalizing thread with
  | nil => rfl
  | cons key rest ih =>
      rw [closeAll_cons, ih]
      rfl

theorem stack_close (thread : Thread V) (owner : Token) (key : Key V) :
    (thread.setStack key ((thread.stack key).close owner).2).stack key =
      ((thread.stack key).close owner).2 := by
  by_cases gone : thread.store = none
  · rw [setStack_gone gone, stack_gone gone]
    rfl
  · rw [stack_setStack gone]

theorem stack_closeAll (owner : Token) {keys : List (Key V)} (once : keys.Nodup)
    (thread : Thread V) (key : Key V) :
    (closeAll owner keys thread).stack key =
      if key ∈ keys then ((thread.stack key).close owner).2 else thread.stack key := by
  induction keys generalizing thread with
  | nil => rfl
  | cons first rest ih =>
      obtain ⟨apart, once⟩ := List.nodup_cons.1 once
      rw [closeAll_cons, ih once]
      by_cases here : key = first
      · subst here
        simp [apart, stack_close]
      · simp [here, stack_setStack_other]

end Thread

section Passing

variable [Discreet V σ]

theorem release_inert (key : Key V) (value : key.Value) :
    release key value = (pure () : Quiet V σ Unit) := by
  cases key with
  | app kind => exact Discreet.inert kind value
  | tally | thrown => rfl

theorem restore_inert (key : Key V) (owner : Token) (id : Nat) (value : key.Value)
    (world : World V σ) :
    Slot.restore key owner id value world = ((),
      match ((world.thread.stack key).frameOf? owner).map Frame.held with
      | some none => { world with
          thread := world.thread.setStack key
            ((world.thread.stack key).onFrame owner (·.put id value)) }
      | _ => world) := by
  have read : Slot.stack key world = (world.thread.stack key, world) := rfl
  unfold Slot.restore
  simp only [bind, StateT.bind, read, release_inert]
  rcases (world.thread.stack key).frameOf? owner with _ | ⟨_, _, _ | held⟩ <;> rfl

theorem closeSlot_apply (owner : Token) (key : Key V) (world : World V σ) :
    Scope.closeSlot owner key world = ((),
      let closed : World V σ := { world with
        thread := world.thread.setStack key ((world.thread.stack key).close owner).2 }
      match ((world.thread.stack key).close owner).1 with
      | .propagated id _ => (emit (.propagated key.name id) closed).2
      | .discarded id _ => (emit (.discarded key.name id) closed).2
      | .retained | .released | .notOpen => closed) := by
  unfold Scope.closeSlot Slot.close
  simp only [bind, StateT.bind, Slot.onStack_apply, release_inert]
  rcases ((world.thread.stack key).close owner).1 with _ | _ | ⟨id, _ | _⟩ | _ | _ <;> rfl

theorem closeSlots_thread (owner : Token) (keys : List (Key V)) (world : World V σ) :
    (keys.forM (Scope.closeSlot owner) world).2.thread = world.thread.closeAll owner keys := by
  induction keys generalizing world with
  | nil => rfl
  | cons key rest ih =>
      have closed : (Scope.closeSlot owner key world).2.thread =
          world.thread.setStack key ((world.thread.stack key).close owner).2 := by
        rw [closeSlot_apply]
        rcases ((world.thread.stack key).close owner).1 with _ | _ | _ | _ | _ <;> rfl
      change (rest.forM (Scope.closeSlot owner) (Scope.closeSlot owner key world).2).2.thread = _
      rw [ih, closed, Thread.closeAll_cons]

theorem leave_thread (scope : OpenScope V) (world : World V σ) :
    (scope.leave world).2.thread =
      { (world.thread.closeAll scope.token scope.interest.keys.reverse) with
        tallying := (world.thread.closeAll scope.token scope.interest.keys.reverse).tallying -
          if scope.tallies then 1 else 0 } := by
  rw [← closeSlots_thread]
  obtain ⟨interest, token, tallies⟩ := scope
  cases tallies <;> rfl

theorem stack_leave (scope : OpenScope V) (world : World V σ) (key : Key V) :
    (scope.leave world).2.thread.stack key =
      if key ∈ scope.interest.keys then ((world.thread.stack key).close scope.token).2
      else world.thread.stack key := by
  rw [leave_thread]
  change (world.thread.closeAll scope.token scope.interest.keys.reverse).stack key = _
  have once : scope.interest.keys.reverse.Nodup := List.nodup_reverse.2 scope.interest.nodup_keys
  simp only [Thread.stack_closeAll _ once, List.mem_reverse]

end Passing

section Entering

variable [Host V σ]

theorem stack_enter (scope : Scope V) {world : World V σ} (alive : world.thread.store ≠ none)
    (key : Key V) :
    (scope.enter world).2.thread.stack key =
      if key ∈ scope.interest.keys then
        (world.thread.stack key).openFor (.numbered (world.thread.lastToken + 1))
      else world.thread.stack key := by
  rw [enter_thread]
  change (world.thread.openAll _ scope.interest.keys).stack key = _
  split
  · rename_i listed
    exact Thread.stack_openAll alive _ scope.interest.nodup_keys listed
  · rename_i absent
    exact Thread.stack_openAll_other _ absent

theorem Thread.openAll_store (owner : Token) (keys : List (Key V)) (thread : Thread V) :
    openAll owner keys thread = { thread with store := (openAll owner keys thread).store } := by
  induction keys generalizing thread with
  | nil => rfl
  | cons key rest ih =>
      rw [openAll_cons, ih]
      rfl

theorem enter_gone (scope : Scope V) (world : World V σ) :
    (scope.enter world).2.thread.store = none ↔ world.thread.store = none := by
  rw [enter_thread]
  change (world.thread.openAll _ _).store = none ↔ _
  constructor
  · intro gone
    by_contra alive
    exact Thread.openAll_alive alive _ _ gone
  · intro gone
    rw [Thread.openAll_gone gone, gone]

theorem enter_current (scope : Scope V) (world : World V σ) :
    (scope.enter world).2.thread.current = world.thread.current := by
  rw [enter_thread, Thread.openAll_store]

theorem enter_reserved (scope : Scope V) (world : World V σ) :
    (scope.enter world).2.thread.reserved = world.thread.reserved := by
  rw [enter_thread, Thread.openAll_store]

theorem enter_unwindings (scope : Scope V) (world : World V σ) :
    (scope.enter world).2.thread.unwindings = world.thread.unwindings := by
  rw [enter_thread, Thread.openAll_store]

theorem enter_tallying {scope : Scope V} (silent : scope.interest.tallies = false)
    (world : World V σ) : (scope.enter world).2.thread.tallying = world.thread.tallying := by
  rw [enter_thread, silent]
  rfl

theorem enter_lastToken (scope : Scope V) (world : World V σ) :
    (scope.enter world).2.thread.lastToken = world.thread.lastToken + 1 := by
  rw [enter_thread]

theorem openSlots_process (owner : Token) (keys : List (Key V)) (world : World V σ) :
    (keys.forM (Scope.openSlot owner) world).2.process = world.process := by
  induction keys generalizing world with
  | nil => rfl
  | cons key rest ih => exact ih (Scope.openSlot owner key world).2

theorem enter_process (scope : Scope V) (world : World V σ) :
    (scope.enter world).2.process = world.process := by
  have opened : (scope.opened world).process = world.process := openSlots_process _ _ _
  rw [enter_apply]
  change (scope.entered world).process = _
  rw [Scope.entered]
  cases scope.interest.tallies <;> exact opened

end Entering

section Telling

variable [Discreet V σ]

theorem openSlots_host (owner : Token) (keys : List (Key V)) (world : World V σ) :
    Discreet.Same V (keys.forM (Scope.openSlot owner) world).2.host world.host := by
  induction keys generalizing world with
  | nil => exact Discreet.same.refl _
  | cons key rest ih =>
      exact Discreet.same.trans (ih (Scope.openSlot owner key world).2) (Discreet.told _ _)

theorem enter_host (scope : Scope V) (world : World V σ) :
    Discreet.Same V (scope.enter world).2.host world.host := by
  have opened : Discreet.Same V (scope.opened world).host world.host := openSlots_host _ _ _
  have entered : Discreet.Same V (scope.entered world).host world.host := by
    rw [Scope.entered]
    cases scope.interest.tallies <;> exact opened
  rw [enter_apply]
  exact Discreet.same.trans (Discreet.told _ _) entered

end Telling

end FaultRelay

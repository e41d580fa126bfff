import FaultRelay.Proofs.Restoration
import FaultRelay.Proofs.Veil

/-! Two runs over what was thrown. The worlds agree but for the thrown objects that were kept, for
what observers made of the events, and for the unwindings under way. A program that looks at none of
these does the same in both. -/
namespace FaultRelay

variable {V : Vocabulary} {σ α : Type} [Discreet V σ]

/-- The worlds agree in all but the thrown objects, the unwindings, and what observers keep. -/
structure World.Matches (world world' : World V σ) : Prop where
  drawn : world.process.drawn = world'.process.drawn
  environment : world.process.environment = world'.process.environment
  settings : world.settings = world'.settings
  lastToken : world.thread.lastToken = world'.thread.lastToken
  tallying : world.thread.tallying = world'.thread.tallying
  current : world.thread.current = world'.thread.current
  reserved : world.thread.reserved = world'.thread.reserved
  gone : world.thread.store = none ↔ world'.thread.store = none
  frames : ∀ key, key ≠ .thrown → world.thread.stack key = world'.thread.stack key
  host : Discreet.Same V world.host world'.host

/-- The operation takes no notice of what the worlds may differ in. -/
def Heedless (act : Quiet V σ α) : Prop :=
  ∀ world world' : World V σ, world.Matches world' →
    (act world).1 = (act world').1 ∧ (act world).2.Matches (act world').2

structure Unheeding (V : Vocabulary) (σ : Type) [Discreet V σ] : Prop where
  declared : ∀ argument count, Heedless (Host.declared argument count : Quiet V σ Unit)
  available : ∀ argument case, Heedless (Host.available argument case : Quiet V σ Bool)
  produced : ∀ argument, Heedless (Host.produced argument : Quiet V σ (Option V.Product))

/-- What a plain program may do. It does not touch thrown objects, does not ask for an unwinding, and
does not go by what observers keep. -/
def Range.plain (V : Vocabulary) (σ : Type) [Discreet V σ] : Range V σ where
  slot key := key ≠ .thrown
  own change := ∀ host host', Discreet.Same V host host' →
    (change host).1 = (change host').1 ∧ Discreet.Same V (change host).2 (change host').2
  adopts := False
  asks := False

namespace World.Matches

variable {world world' : World V σ} {key : Key V}

theorem refl (world : World V σ) : world.Matches world :=
  ⟨rfl, rfl, rfl, rfl, rfl, rfl, rfl, Iff.rfl, fun _ _ => rfl, Discreet.same.refl _⟩

theorem restack (matched : world.Matches world') (key : Key V)
    (change : Stack key.Value → Stack key.Value) {host host' : σ}
    (told : Discreet.Same V host world.host) (told' : Discreet.Same V host' world'.host) :
    World.Matches
      { world with thread := world.thread.setStack key (change (world.thread.stack key)), host }
      { world' with
        thread := world'.thread.setStack key (change (world'.thread.stack key))
        host := host' } := by
  have heard := Discreet.same.trans told (Discreet.same.trans matched.host (Discreet.same.symm told'))
  by_cases gone : world.thread.store = none
  · rw [Thread.setStack_gone gone, Thread.setStack_gone (matched.gone.1 gone)]
    exact { matched with host := heard }
  · have alive' : world'.thread.store ≠ none := fun gone' => gone (matched.gone.2 gone')
    refine { matched with
      gone := iff_of_false (Thread.setStack_alive gone _ _) (Thread.setStack_alive alive' _ _)
      host := heard
      frames := fun other apart => ?_ }
    by_cases here : other = key
    · subst here
      change (world.thread.setStack other (change (world.thread.stack other))).stack other =
        (world'.thread.setStack other (change (world'.thread.stack other))).stack other
      rw [Thread.stack_setStack gone, Thread.stack_setStack alive', matched.frames other apart]
    · change (world.thread.setStack key _).stack other = (world'.thread.setStack key _).stack other
      rw [Thread.stack_setStack_other _ _ here, Thread.stack_setStack_other _ _ here,
        matched.frames other apart]

/-- What is thrown in one of the worlds does not matter. -/
theorem setThrown (matched : world.Matches world') (stack : Stack (Thrown V)) :
    world.Matches { world' with thread := world'.thread.setStack .thrown stack } := by
  refine { matched with gone := ?_, frames := fun key apart => ?_ }
  · change _ ↔ world'.thread.store.map _ = none
    rw [Option.map_eq_none_iff]
    exact matched.gone
  · exact (matched.frames key apart).trans (Thread.stack_setStack_other _ _ apart).symm

theorem emit (matched : world.Matches world') (event event' : Event) :
    (emit event world).2.Matches (FaultRelay.emit event' world').2 :=
  { matched with
    host := Discreet.same.trans (Discreet.told _ _)
      (Discreet.same.trans matched.host (Discreet.same.symm (Discreet.told _ _))) }

theorem counted (matched : world.Matches world') (change : Nat → Nat) :
    World.Matches { world with thread.tallying := change world.thread.tallying }
      { world' with thread.tallying := change world'.thread.tallying } :=
  { matched with tallying := congrArg change matched.tallying }

theorem decided (matched : world.Matches world') :
    World.Matches { world with process.settings := some world.settings }
      { world' with process.settings := some world'.settings } :=
  { matched with settings := matched.settings }

theorem upcoming (matched : world.Matches world') :
    (FailureId.upcoming world).1 = (FailureId.upcoming world').1 ∧
      (FailureId.upcoming world).2.Matches (FailureId.upcoming world').2 := by
  rcases promised : world.thread.reserved with _ | id
  · rw [FailureId.upcoming_unreserved promised,
      FailureId.upcoming_unreserved (matched.reserved ▸ promised)]
    exact ⟨congrArg (fun n => FailureId.numbered (n + 1)) matched.drawn,
      { matched with drawn := congrArg (· + 1) matched.drawn }⟩
  · rw [FailureId.upcoming_reserved promised,
      FailureId.upcoming_reserved (matched.reserved ▸ promised)]
    exact ⟨rfl, matched⟩

theorem openSlots (matched : world.Matches world') (owner : Token) (keys : List (Key V)) :
    (keys.forM (Scope.openSlot owner) world).2.Matches
      (keys.forM (Scope.openSlot owner) world').2 := by
  induction keys generalizing world world' with
  | nil => exact matched
  | cons key rest ih =>
      exact ih (matched.restack key (·.openFor owner) (Discreet.told _ _) (Discreet.told _ _))

theorem enter (matched : world.Matches world') (scope : Scope V) :
    (scope.enter world).1 = (scope.enter world').1 ∧
      (scope.enter world).2.Matches (scope.enter world').2 := by
  have next : World.Matches
      { world with thread.lastToken := world.thread.lastToken + 1 }
      { world' with thread.lastToken := world'.thread.lastToken + 1 } :=
    { matched with lastToken := congrArg (· + 1) matched.lastToken }
  have opened : (scope.opened world).Matches (scope.opened world') := by
    unfold Scope.opened
    rw [matched.lastToken] at next ⊢
    exact next.openSlots _ _
  have entered : (scope.entered world).Matches (scope.entered world') := by
    rw [Scope.entered, Scope.entered]
    split
    · exact opened.counted (· + 1)
    · exact opened
  rw [enter_apply, enter_apply, matched.lastToken]
  exact ⟨rfl, entered.emit _ _⟩

theorem closeSlots (matched : world.Matches world') (owner : Token) (keys : List (Key V)) :
    (keys.forM (Scope.closeSlot owner) world).2.Matches
      (keys.forM (Scope.closeSlot owner) world').2 := by
  have closed : ∀ (key : Key V) (world : World V σ), ∃ host, Discreet.Same V host world.host ∧
      Scope.closeSlot owner key world = ((), { world with
        thread := world.thread.setStack key ((world.thread.stack key).close owner).2, host }) := by
    intro key world
    rw [closeSlot_apply]
    rcases ((world.thread.stack key).close owner).1 with _ | _ | _ | _ | _
    · exact ⟨_, Discreet.same.refl _, rfl⟩
    · exact ⟨_, Discreet.same.refl _, rfl⟩
    · exact ⟨_, Discreet.told _ _, rfl⟩
    · exact ⟨_, Discreet.told _ _, rfl⟩
    · exact ⟨_, Discreet.same.refl _, rfl⟩
  induction keys generalizing world world' with
  | nil => exact matched
  | cons key rest ih =>
      obtain ⟨host, told, first⟩ := closed key world
      obtain ⟨host', told', first'⟩ := closed key world'
      have after : (Scope.closeSlot owner key world).2.Matches
          (Scope.closeSlot owner key world').2 := by
        rw [first, first']
        exact matched.restack key (fun stack => (stack.close owner).2) told told'
      exact ih after

theorem leave (matched : world.Matches world') (active : OpenScope V) :
    (active.leave world).2.Matches (active.leave world').2 := by
  obtain ⟨interest, token, tallies⟩ := active
  have closed := matched.closeSlots token interest.keys.reverse
  cases tallies with
  | true => exact (closed.counted (· - 1)).emit _ _
  | false => exact closed.emit _ _

theorem restore (matched : world.Matches world') (apart : key ≠ .thrown) (owner : Token) (id : Nat)
    (value : key.Value) : (Slot.restore key owner id value world).2.Matches
      (Slot.restore key owner id value world').2 := by
  rw [restore_inert, restore_inert, ← matched.frames key apart]
  split
  · have returned := matched.restack key (·.onFrame owner (·.put id value))
      (Discreet.same.refl _) (Discreet.same.refl _)
    rwa [← matched.frames key apart] at returned
  · exact matched

end World.Matches

variable {world world' : World V σ}

theorem Primitive.heedless (unheeding : Unheeding V σ) {act : Quiet V σ α}
    (primitive : Primitive (.plain V σ) act) : Heedless act := by
  intro world world' matched
  cases primitive with
  | own within =>
      obtain ⟨same, hosts⟩ := within _ _ matched.host
      exact ⟨same, { matched with host := hosts }⟩
  | emit event => exact ⟨rfl, matched.emit event event⟩
  | @touch key _ apart answer change =>
      have same : (Stack.touch answer change (world.thread.stack key)).1 =
          (Stack.touch answer change (world'.thread.stack key)).1 := by
        rw [matched.frames key apart]
      exact ⟨same, matched.restack key _ (Discreet.same.refl _) (Discreet.same.refl _)⟩
  | mint =>
      obtain ⟨same, after⟩ := matched.upcoming
      rw [FailureId.mint_apply, FailureId.mint_apply]
      exact ⟨same, { after with current := congrArg some same, reserved := rfl }⟩
  | reserve =>
      obtain ⟨same, after⟩ := matched.upcoming
      rw [FailureId.reserve_apply, FailureId.reserve_apply]
      exact ⟨same, { after with reserved := congrArg some same }⟩
  | current => exact ⟨matched.current, matched⟩
  | tallying =>
      rw [tallying_apply, tallying_apply]
      exact ⟨by rw [matched.settings, matched.tallying], matched.decided⟩
  | inForce =>
      rw [inForce_apply, inForce_apply]
      exact ⟨matched.settings, matched.decided⟩
  | adopt within => exact within.elim
  | unwinding within => exact within.elim
  | destroy kind value =>
      rw [Discreet.inert]
      exact ⟨rfl, matched⟩
  | declared argument count => exact unheeding.declared argument count _ _ matched
  | available argument case => exact unheeding.available argument case _ _ matched
  | produced argument => exact unheeding.produced argument _ _ matched

def aside (unheeding : Unheeding V σ) : Coupling (.plain V σ) Unit where
  Ties _ _ world world' := world.Matches world'
  step primitive := fun matched => primitive.heedless unheeding _ _ matched
  perm _ matched := matched
  unwound matched := { matched with }
  stopped matched := { matched with }
  enter scope matched := matched.enter scope
  leave active matched := matched.leave active
  Lends _ _ _ := True
  lends _ _ := trivial
  restore apart _ matched id value := matched.restore apart _ id value
  thread {_ _ world world'} matched := by
    refine ⟨(), { matched with
      lastToken := rfl, tallying := rfl, current := rfl, reserved := rfl, gone := Iff.rfl
      frames := fun _ _ => rfl }, ?_⟩
    intro within later later' ended
    rw [endStorage_inert, endStorage_inert]
    have rejoined : (world.rejoined later).Matches (world'.rejoined later') :=
      { matched with
        drawn := ended.drawn
        environment := ended.environment
        settings := ended.settings
        host := ended.host }
    exact ⟨rejoined, rejoined⟩

end FaultRelay

import FaultRelay.Proofs.Restoration

/-! Two runs over frames that hold other values. The runs drew the same tokens, and the same frames
are open, but below the floor of a payload type the values may differ. No program gets below the
floors: only the innermost frame of a type is ever looked at, and a scope only hands a value down
that it leaves itself. So the runs do not differ in anything that a host is told either. -/
namespace FaultRelay

variable {V : Vocabulary} {σ α β : Type}

/-- The runs drew the same tokens, and their floors differ in the values below them only. -/
structure Link.Even (link : Link V) : Prop where
  tokens : link.left = link.right
  floors : ∀ {key floors}, link.floor key = some floors → floors.1.owner = floors.2.owner ∧
    Stack.outlineOf floors.1.below = Stack.outlineOf floors.2.below

section Even

variable {link : Link V} {key : Key V} {frames frames' : List (Frame key.Value)}

theorem Link.Twin.same {owner owner' : Token} (even : link.Even)
    (twin : link.Twin key owner owner') : owner = owner' := by
  cases twin with
  | later n => rw [even.tokens]
  | floor laid => exact (even.floors laid).1
  | shared => rfl

theorem Link.Paired.outline (even : link.Even) (paired : link.Paired key frames frames') :
    Stack.outlineOf frames = Stack.outlineOf frames' := by
  induction paired with
  | bottom => rfl
  | floor laid refs held =>
      obtain ⟨owner, below⟩ := even.floors laid
      exact congrArg₂ List.cons (Prod.ext owner rfl) below
  | frame twin refs held rest ih =>
      exact congrArg₂ List.cons (Prod.ext (twin.same even) rfl) ih

theorem Link.Paired.held (paired : link.Paired key frames frames') :
    (⟨frames⟩ : Stack key.Value).top?.bind Frame.held =
      (⟨frames'⟩ : Stack key.Value).top?.bind Frame.held := by
  rcases paired.top with ⟨rfl, rfl⟩ | ⟨_, _, _, _, _, _, rfl, rfl, _⟩ <;> rfl

theorem Link.Paired.touch (even : link.Even) (paired : link.Paired key frames frames')
    (answer : List (Token × Nat) → Option (Nat × key.Value) → β)
    (change : Option (Nat × key.Value) → Option (Nat × key.Value)) :
    (Stack.touch answer change ⟨frames⟩).1 = (Stack.touch answer change ⟨frames'⟩).1 ∧
      link.Paired key (Stack.touch answer change ⟨frames⟩).2.frames
        (Stack.touch answer change ⟨frames'⟩).2.frames :=
  ⟨congrArg₂ answer (paired.outline even) paired.held, paired.onTop change fun _ => rfl⟩

end Even

def World.opening (owner : Token) (key : Key V) (world : World V σ) : World V σ :=
  { world with thread := world.thread.setStack key ((world.thread.stack key).openFor owner) }

theorem openSlot_apply [Host V σ] (owner : Token) (key : Key V) (world : World V σ) :
    Scope.openSlot owner key world =
      emit (.opened key.name ((world.opening owner key).thread.stack key).depth)
        (world.opening owner key) := rfl

/-- Two worlds that differ in the values below the floors only. -/
structure Link.Veiled (link : Link V) (world world' : World V σ) : Prop where
  process : world.process = world'.process
  lastToken : world.thread.lastToken = world'.thread.lastToken
  drawn : link.left ≤ world.thread.lastToken
  tallying : world.thread.tallying = world'.thread.tallying
  current : world.thread.current = world'.thread.current
  reserved : world.thread.reserved = world'.thread.reserved
  unwindings : world.thread.unwindings = world'.thread.unwindings
  gone : world.thread.store = none ↔ world'.thread.store = none
  frames : ∀ key, link.Paired key (world.thread.stack key).frames (world'.thread.stack key).frames
  host : world.host = world'.host

def Blind (act : Quiet V σ α) : Prop :=
  ∀ (link : Link V), link.Even → ∀ world world' : World V σ, link.Veiled world world' →
    (act world).1 = (act world').1 ∧ link.Veiled (act world).2 (act world').2

structure Unseeing (V : Vocabulary) (σ : Type) [Host V σ] : Prop where
  declared : ∀ argument count, Blind (Host.declared argument count : Quiet V σ Unit)
  available : ∀ argument case, Blind (Host.available argument case : Quiet V σ Bool)
  produced : ∀ argument, Blind (Host.produced argument : Quiet V σ (Option V.Product))

namespace Link.Veiled

variable {link : Link V} {world world' : World V σ} {key : Key V}

theorem setStack (veiled : link.Veiled world world') {stack stack' : Stack key.Value}
    (paired : link.Paired key stack.frames stack'.frames) :
    link.Veiled { world with thread := world.thread.setStack key stack }
      { world' with thread := world'.thread.setStack key stack' } := by
  by_cases gone : world.thread.store = none
  · rw [Thread.setStack_gone gone, Thread.setStack_gone (veiled.gone.1 gone)]
    exact veiled
  · have alive' : world'.thread.store ≠ none := fun gone' => gone (veiled.gone.2 gone')
    refine { veiled with
      gone := iff_of_false (Thread.setStack_alive gone _ _) (Thread.setStack_alive alive' _ _)
      frames := fun other => ?_ }
    by_cases here : other = key
    · subst here
      change link.Paired other ((world.thread.setStack other stack).stack other).frames
        ((world'.thread.setStack other stack').stack other).frames
      rw [Thread.stack_setStack gone, Thread.stack_setStack alive']
      exact paired
    · change link.Paired other ((world.thread.setStack key stack).stack other).frames
        ((world'.thread.setStack key stack').stack other).frames
      rw [Thread.stack_setStack_other _ _ here, Thread.stack_setStack_other _ _ here]
      exact veiled.frames other

theorem emit [Observer σ] (veiled : link.Veiled world world') (event : Event) :
    link.Veiled (emit event world).2 (FaultRelay.emit event world').2 :=
  { veiled with host := congrArg (Observer.observe event) veiled.host }

theorem depth (even : link.Even) (veiled : link.Veiled world world') (key : Key V) :
    (world.thread.stack key).depth = (world'.thread.stack key).depth := by
  have same : (world.thread.stack key).outline = (world'.thread.stack key).outline :=
    (veiled.frames key).outline even
  rw [Stack.depth_eq_length, Stack.depth_eq_length, same]

theorem upcoming (veiled : link.Veiled world world') :
    (FailureId.upcoming world).1 = (FailureId.upcoming world').1 ∧
      link.Veiled (FailureId.upcoming world).2 (FailureId.upcoming world').2 := by
  rcases promised : world.thread.reserved with _ | id
  · rw [FailureId.upcoming_unreserved promised,
      FailureId.upcoming_unreserved (veiled.reserved ▸ promised)]
    have drawn := congrArg Process.drawn veiled.process
    refine ⟨congrArg (fun n => FailureId.numbered (n + 1)) drawn, { veiled with process := ?_ }⟩
    exact congrArg (fun process : Process => { process with drawn := process.drawn + 1 })
      veiled.process
  · rw [FailureId.upcoming_reserved promised,
      FailureId.upcoming_reserved (veiled.reserved ▸ promised)]
    exact ⟨rfl, veiled⟩

theorem counted (veiled : link.Veiled world world') (change : Nat → Nat) :
    link.Veiled { world with thread.tallying := change world.thread.tallying }
      { world' with thread.tallying := change world'.thread.tallying } :=
  { veiled with tallying := congrArg change veiled.tallying }

theorem settings (veiled : link.Veiled world world') : world.settings = world'.settings := by
  rw [World.settings, World.settings, veiled.process]

theorem decided (veiled : link.Veiled world world') (settings : Settings) :
    link.Veiled { world with process.settings := some settings }
      { world' with process.settings := some settings } :=
  { veiled with process := by rw [veiled.process] }

section Scopes

variable [Discreet V σ]

theorem openSlots (even : link.Even) (veiled : link.Veiled world world') {owner : Token}
    {keys : List (Key V)} (twin : ∀ key ∈ keys, link.Twin key owner owner) :
    link.Veiled (keys.forM (Scope.openSlot owner) world).2
      (keys.forM (Scope.openSlot owner) world').2 := by
  induction keys generalizing world world' with
  | nil => exact veiled
  | cons key rest ih =>
      obtain ⟨own, others⟩ := List.forall_mem_cons.1 twin
      have opened : link.Veiled (world.opening owner key) (world'.opening owner key) :=
        veiled.setStack ((veiled.frames key).openFor own)
      have first : link.Veiled (Scope.openSlot owner key world).2
          (Scope.openSlot owner key world').2 := by
        rw [openSlot_apply, openSlot_apply, opened.depth even key]
        exact opened.emit _
      exact ih first others

theorem enter (even : link.Even) (veiled : link.Veiled world world') (scope : Scope V) :
    (scope.enter world).1 = (scope.enter world').1 ∧
      (∃ n, (scope.enter world).1.token = .numbered (link.left + n + 1)) ∧
      link.Veiled (scope.enter world).2 (scope.enter world').2 := by
  obtain ⟨n, drawn⟩ := Nat.exists_eq_add_of_le veiled.drawn
  have next : link.Veiled { world with thread.lastToken := world.thread.lastToken + 1 }
      { world' with thread.lastToken := world'.thread.lastToken + 1 } :=
    { veiled with
      lastToken := congrArg (· + 1) veiled.lastToken
      drawn := veiled.drawn.trans (Nat.le_succ _) }
  have twin : ∀ key ∈ scope.interest.keys, link.Twin key
      (.numbered (world.thread.lastToken + 1)) (.numbered (world.thread.lastToken + 1)) :=
    fun key _ => by
      have later : link.Twin key _ _ := .later n
      rwa [← even.tokens, ← drawn] at later
  have opened : link.Veiled (scope.opened world) (scope.opened world') := by
    unfold Scope.opened
    rw [← veiled.lastToken] at next ⊢
    exact next.openSlots even twin
  rw [enter_apply, enter_apply, ← veiled.lastToken, drawn]
  refine ⟨rfl, ⟨n, rfl⟩, ?_⟩
  rw [Scope.entered, Scope.entered]
  cases scope.interest.tallies with
  | true => exact (opened.counted (· + 1)).emit _
  | false => exact opened.emit _

theorem closeSlot (even : link.Even) (veiled : link.Veiled world world') (n : Nat) (key : Key V) :
    link.Veiled (Scope.closeSlot (.numbered (link.left + n + 1)) key world).2
      (Scope.closeSlot (.numbered (link.left + n + 1)) key world').2 := by
  obtain ⟨answers, paired⟩ := (veiled.frames key).close n
  rw [← even.tokens] at answers paired
  have closed : link.Veiled
      { world with thread := world.thread.setStack key ((world.thread.stack key).close _).2 }
      { world' with thread := world'.thread.setStack key ((world'.thread.stack key).close _).2 } :=
    veiled.setStack paired
  rw [closeSlot_apply, closeSlot_apply,
    show ((world.thread.stack key).close _).1 = ((world'.thread.stack key).close _).1 from answers]
  rcases ((world'.thread.stack key).close _).1 with _ | _ | _ | _ | _
  · exact closed
  · exact closed
  · exact closed.emit _
  · exact closed.emit _
  · exact closed

theorem closeSlots (even : link.Even) (veiled : link.Veiled world world') (n : Nat)
    (keys : List (Key V)) :
    link.Veiled (keys.forM (Scope.closeSlot (.numbered (link.left + n + 1))) world).2
      (keys.forM (Scope.closeSlot (.numbered (link.left + n + 1))) world').2 := by
  induction keys generalizing world world' with
  | nil => exact veiled
  | cons key rest ih => exact ih (veiled.closeSlot even n key)

theorem leave (even : link.Even) (veiled : link.Veiled world world') {active : OpenScope V} {n : Nat}
    (later : active.token = .numbered (link.left + n + 1)) :
    link.Veiled (active.leave world).2 (active.leave world').2 := by
  obtain ⟨interest, token, tallies⟩ := active
  obtain rfl : token = _ := later
  have closed := veiled.closeSlots even n interest.keys.reverse
  cases tallies with
  | true => exact (closed.counted (· - 1)).emit _
  | false => exact closed.emit _

theorem restore (veiled : link.Veiled world world') {owner : Token}
    (twin : link.Twin key owner owner) (id : Nat) (value : key.Value) :
    link.Veiled (Slot.restore key owner id value world).2
      (Slot.restore key owner id value world').2 := by
  have paired := veiled.frames key
  rw [restore_inert, restore_inert, paired.frameOf? twin]
  rcases ((world'.thread.stack key).frameOf? owner).map Frame.held with _ | _ | held
  · exact veiled
  · exact veiled.setStack (paired.onFrame twin id value)
  · exact veiled

end Scopes

end Link.Veiled

section Steps

variable [Discreet V σ] {link : Link V} {world world' : World V σ}

theorem Primitive.blind (unseeing : Unseeing V σ) {range : Range V σ} {act : Quiet V σ α}
    (primitive : Primitive range act) : Blind act := by
  intro link even world world' veiled
  cases primitive with
  | @own _ change =>
      have same := veiled.host
      exact ⟨congrArg (fun host => (change host).1) same,
        { veiled with host := congrArg (fun host => (change host).2) same }⟩
  | emit event => exact ⟨rfl, veiled.emit event⟩
  | @touch key _ _ answer change =>
      obtain ⟨same, paired⟩ := (veiled.frames key).touch even answer change
      exact ⟨same, veiled.setStack paired⟩
  | mint =>
      obtain ⟨same, after⟩ := veiled.upcoming
      rw [FailureId.mint_apply, FailureId.mint_apply]
      exact ⟨same, { after with current := congrArg some same, reserved := rfl }⟩
  | reserve =>
      obtain ⟨same, after⟩ := veiled.upcoming
      rw [FailureId.reserve_apply, FailureId.reserve_apply]
      exact ⟨same, { after with reserved := congrArg some same }⟩
  | current => exact ⟨veiled.current, veiled⟩
  | tallying =>
      rw [tallying_apply, tallying_apply, veiled.settings, veiled.tallying]
      exact ⟨rfl, veiled.decided _⟩
  | inForce =>
      rw [inForce_apply, inForce_apply, veiled.settings]
      exact ⟨rfl, veiled.decided _⟩
  | adopt _ settings =>
      obtain ⟨⟨drawn, decided, environment⟩, thread, host⟩ := world
      obtain ⟨process', thread', host'⟩ := world'
      obtain rfl : _ = process' := veiled.process
      cases decided with
      | none => exact ⟨rfl, (veiled.decided settings).emit _⟩
      | some _ => exact ⟨rfl, veiled⟩
  | unwinding => exact ⟨congrArg (fun count => decide (0 < count)) veiled.unwindings, veiled⟩
  | destroy kind value =>
      rw [Discreet.inert]
      exact ⟨rfl, veiled⟩
  | declared argument count => exact unseeing.declared argument count link even _ _ veiled
  | available argument case => exact unseeing.available argument case link even _ _ veiled
  | produced argument => exact unseeing.produced argument link even _ _ veiled

def Link.bare (V : Vocabulary) : Link V := ⟨0, 0, fun _ => none, fun laid => by cases laid⟩

theorem Link.bare_even : (Link.bare V).Even := ⟨rfl, fun laid => by cases laid⟩

/-- The end of a thread tells the host nothing. -/
theorem endStorage_inert (world : World V σ) :
    Slot.endStorage world = ((), { world with thread.store := none }) := by
  have released : ∀ (key : Key V) (values : List key.Value) (world : World V σ),
      values.forM (release key) world = ((), world) := by
    intro key values
    induction values with
    | nil => exact fun _ => rfl
    | cons value rest ih =>
        intro world
        change (release key value >>= fun _ => rest.forM (release key)) world = _
        rw [release_inert]
        exact ih world
  have every : ∀ (entries : List ((key : Key V) × Stack key.Value)) (world : World V σ),
      (entries.forM fun entry =>
        (entry.2.frames.reverse.filterMap Frame.value?).forM (release entry.1) : Quiet V σ Unit)
        world = ((), world) := by
    intro entries
    induction entries with
    | nil => exact fun _ => rfl
    | cons entry rest ih =>
        intro world
        change (rest.forM fun entry : (key : Key V) × Stack key.Value =>
          (entry.2.frames.reverse.filterMap Frame.value?).forM (release entry.1))
            ((entry.2.frames.reverse.filterMap Frame.value?).forM (release entry.1) world).2 = _
        rw [released]
        exact ih world
  obtain ⟨process, ⟨store, lastToken, tallying, current, reserved, unwindings⟩, host⟩ := world
  cases store with
  | none => rfl
  | some store => exact every store.entries _

def veil (unseeing : Unseeing V σ) (range : Range V σ) :
    Coupling range { link : Link V // link.Even } where
  Ties i held world world' := i.1.Veiled world world' ∧
    ∀ scope ∈ held, ∃ n, scope.token = .numbered (i.1.left + n + 1)
  step := by
    intro _ _ primitive i held world world' tied
    obtain ⟨same, veiled⟩ := primitive.blind unseeing i.1 i.2 _ _ tied.1
    exact ⟨same, veiled, tied.2⟩
  perm given := fun tied => ⟨tied.1, fun scope listed => tied.2 scope (given.mem_iff.2 listed)⟩
  unwound tied := ⟨{ tied.1 with unwindings := congrArg (· + 1) tied.1.unwindings }, tied.2⟩
  stopped tied := ⟨{ tied.1 with unwindings := congrArg (· - 1) tied.1.unwindings }, tied.2⟩
  enter {i _ _ _} scope tied := by
    obtain ⟨same, later, veiled⟩ := tied.1.enter i.2 scope
    exact ⟨same, veiled, List.forall_mem_cons.2 ⟨later, tied.2⟩⟩
  leave {i _ _ _} active tied := by
    obtain ⟨⟨n, later⟩, others⟩ := List.forall_mem_cons.1 tied.2
    exact ⟨tied.1.leave i.2 later, others⟩
  Lends i key owner := i.1.Twin key owner owner
  lends {i _ world world' key top} tied innermost := by
    rcases (tied.1.frames key).top with ⟨none, _⟩ | ⟨_, _, _, _, _, _, first, _, twin⟩
    · rw [Stack.top?, none] at innermost
      cases innermost
    · rw [Stack.top?, first] at innermost
      cases innermost
      exact twin.same i.2 ▸ twin
  restore _ twin tied id value := ⟨tied.1.restore twin id value, tied.2⟩
  thread {i _ world world'} tied := by
    refine ⟨⟨Link.bare V, Link.bare_even⟩, ⟨?_, by simp⟩, ?_⟩
    · exact ⟨tied.1.process, rfl, Nat.zero_le _, rfl, rfl, rfl, rfl, Iff.rfl,
        fun key => .bottom rfl, tied.1.host⟩
    · intro within later later' ended
      rw [endStorage_inert, endStorage_inert]
      have rejoined : i.1.Veiled (world.rejoined later) (world'.rejoined later') :=
        { tied.1 with process := ended.1.process, host := ended.1.host }
      exact ⟨⟨rejoined, tied.2⟩, rejoined, tied.2⟩

end Steps

end FaultRelay

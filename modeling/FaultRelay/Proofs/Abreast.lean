import FaultRelay.Proofs.Veil

/-! Two runs that keep abreast. The frames may differ below the floors, observers may have kept other
events, and the payload types may have been opened in another order. Programs do not go by any of
this, and destructors, which may do what programs do, are taken not to either. What a thread holds
when it ends is ended in the order in which its types were opened, so that two threads that are to
end alike must be the same. -/
namespace FaultRelay

variable {V : Vocabulary} {σ α β : Type}

structure Peers (σ : Type) [Observer σ] where
  Same : σ → σ → Prop
  same : Equivalence Same
  told : ∀ event host, Same (Observer.observe event host) host

def Discreet.peers (V : Vocabulary) (σ : Type) [Discreet V σ] : Peers σ where
  Same := Discreet.Same V
  same := Discreet.same
  told := Discreet.told

/-- The worlds of two runs that keep abreast. If `exact` holds, the threads are the same. -/
structure Link.Abreast [Observer σ] (link : Link V) (peers : Peers σ) (exact : Prop)
    (world world' : World V σ) : Prop where
  process : world.process = world'.process
  lastToken : world.thread.lastToken = world'.thread.lastToken
  drawn : link.left ≤ world.thread.lastToken
  tallying : world.thread.tallying = world'.thread.tallying
  current : world.thread.current = world'.thread.current
  reserved : world.thread.reserved = world'.thread.reserved
  unwindings : world.thread.unwindings = world'.thread.unwindings
  gone : world.thread.store = none ↔ world'.thread.store = none
  frames : ∀ key, link.Paired key (world.thread.stack key).frames (world'.thread.stack key).frames
  alike : exact → world.thread = world'.thread
  host : peers.Same world.host world'.host

def Link.InStep [Observer σ] (link : Link V) (peers : Peers σ) (exact : Prop) (act : Quiet V σ α) :
    Prop :=
  ∀ world world' : World V σ, link.Abreast peers exact world world' →
    (act world).1 = (act world').1 ∧ link.Abreast peers exact (act world).2 (act world').2

/-- What the application does on its own account keeps any two runs abreast. -/
structure Peers.Unbiased [Host V σ] (peers : Peers σ) : Prop where
  destroy : ∀ (link : Link V), link.Even → ∀ exact kind value,
    link.InStep peers exact (Host.destroy kind value)
  declared : ∀ (link : Link V), link.Even → ∀ exact argument count,
    link.InStep peers exact (Host.declared argument count)
  available : ∀ (link : Link V), link.Even → ∀ exact argument case,
    link.InStep peers exact (Host.available argument case)
  produced : ∀ (link : Link V), link.Even → ∀ exact argument,
    link.InStep peers exact (Host.produced argument)

def Range.among [Observer σ] (V : Vocabulary) (peers : Peers σ) : Range V σ where
  slot _ := True
  own change := ∀ host host', peers.Same host host' →
    (change host).1 = (change host').1 ∧ peers.Same (change host).2 (change host').2
  adopts := True
  asks := True

theorem restore_held [Host V σ] (key : Key V) (owner : Token) (id : Nat) (value : key.Value)
    (world : World V σ) :
    Slot.restore key owner id value world =
      match ((world.thread.stack key).frameOf? owner).map Frame.held with
      | some none => ((), { world with
          thread := world.thread.setStack key
            ((world.thread.stack key).onFrame owner (·.put id value)) })
      | _ => release key value world := by
  have read : Slot.stack key world = (world.thread.stack key, world) := rfl
  unfold Slot.restore
  simp only [bind, StateT.bind, read]
  rcases (world.thread.stack key).frameOf? owner with _ | ⟨_, _, _ | held⟩ <;> rfl

section Operations

variable [Host V σ] {link : Link V} {peers : Peers σ} {exact : Prop} {world world' : World V σ}
  {key : Key V}

namespace Link.Abreast

theorem setStack (abreast : link.Abreast peers exact world world') {stack stack' : Stack key.Value}
    (paired : link.Paired key stack.frames stack'.frames) (alike : exact → stack = stack') :
    link.Abreast peers exact { world with thread := world.thread.setStack key stack }
      { world' with thread := world'.thread.setStack key stack' } := by
  by_cases gone : world.thread.store = none
  · rw [Thread.setStack_gone gone, Thread.setStack_gone (abreast.gone.1 gone)]
    exact abreast
  · have alive' : world'.thread.store ≠ none := fun gone' => gone (abreast.gone.2 gone')
    refine { abreast with
      gone := iff_of_false (Thread.setStack_alive gone _ _) (Thread.setStack_alive alive' _ _)
      frames := fun other => ?_
      alike := fun holds => by rw [abreast.alike holds, alike holds] }
    by_cases here : other = key
    · subst here
      change link.Paired other ((world.thread.setStack other stack).stack other).frames
        ((world'.thread.setStack other stack').stack other).frames
      rw [Thread.stack_setStack gone, Thread.stack_setStack alive']
      exact paired
    · change link.Paired other ((world.thread.setStack key stack).stack other).frames
        ((world'.thread.setStack key stack').stack other).frames
      rw [Thread.stack_setStack_other _ _ here, Thread.stack_setStack_other _ _ here]
      exact abreast.frames other

theorem emit (abreast : link.Abreast peers exact world world') (event event' : Event) :
    link.Abreast peers exact (emit event world).2 (FaultRelay.emit event' world').2 :=
  { abreast with
    host := peers.same.trans (peers.told _ _)
      (peers.same.trans abreast.host (peers.same.symm (peers.told _ _))) }

theorem stack (abreast : link.Abreast peers exact world world') (holds : exact) (key : Key V) :
    world.thread.stack key = world'.thread.stack key := by rw [abreast.alike holds]

theorem upcoming (abreast : link.Abreast peers exact world world') :
    (FailureId.upcoming world).1 = (FailureId.upcoming world').1 ∧
      link.Abreast peers exact (FailureId.upcoming world).2 (FailureId.upcoming world').2 := by
  rcases promised : world.thread.reserved with _ | id
  · rw [FailureId.upcoming_unreserved promised,
      FailureId.upcoming_unreserved (abreast.reserved ▸ promised)]
    have drawn := congrArg Process.drawn abreast.process
    refine ⟨congrArg (fun n => FailureId.numbered (n + 1)) drawn, { abreast with process := ?_ }⟩
    exact congrArg (fun process : Process => { process with drawn := process.drawn + 1 })
      abreast.process
  · rw [FailureId.upcoming_reserved promised,
      FailureId.upcoming_reserved (abreast.reserved ▸ promised)]
    exact ⟨rfl, abreast⟩

theorem settings (abreast : link.Abreast peers exact world world') :
    world.settings = world'.settings := by
  rw [World.settings, World.settings, abreast.process]

theorem decided (abreast : link.Abreast peers exact world world') (settings : Settings) :
    link.Abreast peers exact { world with process.settings := some settings }
      { world' with process.settings := some settings } :=
  { abreast with process := by rw [abreast.process] }

theorem counted (abreast : link.Abreast peers exact world world') (change : Nat → Nat) :
    link.Abreast peers exact
      { world with thread.tallying := change world.thread.tallying }
      { world' with thread.tallying := change world'.thread.tallying } :=
  { abreast with
    tallying := congrArg change abreast.tallying
    alike := fun holds => congrArg
      (fun thread : Thread V => { thread with tallying := change thread.tallying })
      (abreast.alike holds) }

theorem openSlots (abreast : link.Abreast peers exact world world')
    {owner : Token} {keys : List (Key V)} (twin : ∀ key ∈ keys, link.Twin key owner owner) :
    link.Abreast peers exact (keys.forM (Scope.openSlot owner) world).2
      (keys.forM (Scope.openSlot owner) world').2 := by
  induction keys generalizing world world' with
  | nil => exact abreast
  | cons key rest ih =>
      obtain ⟨own, others⟩ := List.forall_mem_cons.1 twin
      have opened : link.Abreast peers exact (world.opening owner key) (world'.opening owner key) :=
        abreast.setStack ((abreast.frames key).openFor own) fun holds => by
          rw [abreast.stack holds]
      exact ih (opened.emit _ _) others

theorem enter (even : link.Even) (abreast : link.Abreast peers exact world world')
    (scope : Scope V) :
    (scope.enter world).1 = (scope.enter world').1 ∧
      (∃ n, (scope.enter world).1.token = .numbered (link.left + n + 1)) ∧
      link.Abreast peers exact (scope.enter world).2 (scope.enter world').2 := by
  obtain ⟨n, drawn⟩ := Nat.exists_eq_add_of_le abreast.drawn
  have next : link.Abreast peers exact
      { world with thread.lastToken := world.thread.lastToken + 1 }
      { world' with thread.lastToken := world'.thread.lastToken + 1 } :=
    { abreast with
      lastToken := congrArg (· + 1) abreast.lastToken
      drawn := abreast.drawn.trans (Nat.le_succ _)
      alike := fun holds => by rw [abreast.alike holds] }
  have twin : ∀ key ∈ scope.interest.keys, link.Twin key
      (.numbered (world.thread.lastToken + 1)) (.numbered (world.thread.lastToken + 1)) :=
    fun key _ => by
      have later : link.Twin key _ _ := .later n
      rwa [← even.tokens, ← drawn] at later
  have opened : link.Abreast peers exact (scope.opened world) (scope.opened world') := by
    unfold Scope.opened
    rw [← abreast.lastToken] at next ⊢
    exact next.openSlots twin
  rw [enter_apply, enter_apply, ← abreast.lastToken, drawn]
  refine ⟨rfl, ⟨n, rfl⟩, ?_⟩
  rw [Scope.entered, Scope.entered]
  cases scope.interest.tallies with
  | false => exact opened.emit _ _
  | true => exact (opened.counted (· + 1)).emit _ _

end Link.Abreast

namespace Link.InStep

theorem still (value : α) : link.InStep peers exact (pure value : Quiet V σ α) :=
  fun _ _ abreast => ⟨rfl, abreast⟩

theorem seq {act : Quiet V σ α} {next : α → Quiet V σ β} (first : link.InStep peers exact act)
    (later : ∀ value, link.InStep peers exact (next value)) :
    link.InStep peers exact (act >>= next) := by
  intro world world' abreast
  obtain ⟨same, after⟩ := first world world' abreast
  have follows : (act >>= next) world' = next (act world).1 (act world').2 :=
    congrArg (next · (act world').2) same.symm
  rw [follows]
  exact later (act world).1 _ _ after

theorem forM {act : β → Quiet V σ Unit} (each : ∀ element, link.InStep peers exact (act element))
    (list : List β) : link.InStep peers exact (list.forM act) := by
  induction list with
  | nil => exact still ()
  | cons first rest ih => exact seq (each first) fun _ => ih

theorem emit (event : Event) : link.InStep peers exact (emit event : Quiet V σ Unit) :=
  fun _ _ abreast => ⟨rfl, abreast.emit event event⟩

theorem tally (change : Nat → Nat) : link.InStep peers exact (Quiet.modifyThread fun thread =>
    { thread with tallying := change thread.tallying } : Quiet V σ Unit) :=
  fun _ _ abreast => ⟨rfl, abreast.counted change⟩

section Releasing

variable (unbiased : peers.Unbiased (V := V)) (even : link.Even)
include unbiased even

theorem release (key : Key V) (value : key.Value) :
    link.InStep peers exact (release key value : Quiet V σ Unit) := by
  cases key with
  | app kind => exact unbiased.destroy link even exact kind value
  | tally | thrown => exact still ()

theorem closeSlot (n : Nat) (key : Key V) :
    link.InStep peers exact
      (Scope.closeSlot (.numbered (link.left + n + 1)) key : Quiet V σ Unit) := by
  have close : link.InStep peers exact
      (Slot.close key (.numbered (link.left + n + 1)) : Quiet V σ (Closed key.Value)) := by
    intro world world' abreast
    obtain ⟨answers, paired⟩ := (abreast.frames key).close n
    rw [← even.tokens] at answers paired
    exact ⟨answers, abreast.setStack paired fun holds => by rw [abreast.stack holds]⟩
  refine seq close fun closed => ?_
  cases closed with
  | retained | released | notOpen => exact still ()
  | propagated id replaced =>
      refine seq (emit _) fun _ => ?_
      cases replaced with
      | none => exact still ()
      | some value => exact release unbiased even key value
  | discarded id value => exact seq (emit _) fun _ => release unbiased even key value

theorem leave {active : OpenScope V} {n : Nat}
    (later : active.token = .numbered (link.left + n + 1)) :
    link.InStep peers exact (active.leave : Quiet V σ Unit) := by
  obtain ⟨interest, token, tallies⟩ := active
  obtain rfl : token = _ := later
  refine seq (forM (closeSlot unbiased even n) _) fun _ => ?_
  cases tallies with
  | true => exact seq (tally (· - 1)) fun _ => emit _
  | false => exact emit _

theorem restore {owner : Token} (twin : link.Twin key owner owner) (id : Nat) (value : key.Value) :
    link.InStep peers exact (Slot.restore key owner id value : Quiet V σ Unit) := by
  intro world world' abreast
  have paired := abreast.frames key
  rw [restore_held, restore_held, paired.frameOf? twin]
  rcases ((world'.thread.stack key).frameOf? owner).map Frame.held with _ | _ | held
  · exact release unbiased even key value world world' abreast
  · exact ⟨rfl, abreast.setStack (paired.onFrame twin id value) fun holds => by
      rw [abreast.stack holds]⟩
  · exact release unbiased even key value world world' abreast

theorem primitive {act : Quiet V σ α} (primitive : Primitive (.among V peers) act) :
    link.InStep peers exact act := by
  intro world world' abreast
  cases primitive with
  | own within =>
      obtain ⟨same, hosts⟩ := within _ _ abreast.host
      exact ⟨same, { abreast with host := hosts }⟩
  | emit event => exact emit event world world' abreast
  | @touch key _ _ answer change =>
      obtain ⟨same, paired⟩ := (abreast.frames key).touch even answer change
      exact ⟨same, abreast.setStack paired fun holds => by rw [abreast.stack holds]⟩
  | mint =>
      obtain ⟨same, after⟩ := abreast.upcoming
      rw [FailureId.mint_apply, FailureId.mint_apply]
      exact ⟨same, { after with
        current := congrArg some same
        reserved := rfl
        alike := fun holds => by rw [after.alike holds, same] }⟩
  | reserve =>
      obtain ⟨same, after⟩ := abreast.upcoming
      rw [FailureId.reserve_apply, FailureId.reserve_apply]
      exact ⟨same, { after with
        reserved := congrArg some same
        alike := fun holds => by rw [after.alike holds, same] }⟩
  | current => exact ⟨abreast.current, abreast⟩
  | tallying =>
      rw [tallying_apply, tallying_apply, abreast.settings, abreast.tallying]
      exact ⟨rfl, abreast.decided _⟩
  | inForce =>
      rw [inForce_apply, inForce_apply, abreast.settings]
      exact ⟨rfl, abreast.decided _⟩
  | adopt _ settings =>
      obtain ⟨⟨drawn, decided, environment⟩, thread, host⟩ := world
      obtain ⟨process', thread', host'⟩ := world'
      obtain rfl : _ = process' := abreast.process
      cases decided with
      | none => exact ⟨rfl, (abreast.decided settings).emit _ _⟩
      | some _ => exact ⟨rfl, abreast⟩
  | unwinding => exact ⟨congrArg (fun count => decide (0 < count)) abreast.unwindings, abreast⟩
  | destroy kind value => exact unbiased.destroy link even exact kind value _ _ abreast
  | declared argument count => exact unbiased.declared link even exact argument count _ _ abreast
  | available argument case => exact unbiased.available link even exact argument case _ _ abreast
  | produced argument => exact unbiased.produced link even exact argument _ _ abreast

end Releasing

theorem endStorage (unbiased : peers.Unbiased (V := V)) :
    (Link.bare V).InStep peers True (Slot.endStorage : Quiet V σ Unit) := by
  intro world world' abreast
  have stored : world.thread.store = world'.thread.store :=
    congrArg Thread.store (abreast.alike trivial)
  have ended : (Link.bare V).Abreast peers True { world with thread.store := none }
      { world' with thread.store := none } :=
    { abreast with
      gone := Iff.rfl
      frames := fun _ => .bottom rfl
      alike := fun _ => by rw [abreast.alike trivial] }
  let endings (store : Option (Store V)) : Quiet V σ Unit :=
    store.elim (pure ()) fun store => store.entries.forM fun entry =>
      (entry.2.frames.reverse.filterMap Frame.value?).forM (FaultRelay.release entry.1)
  have inStep : ∀ store, (Link.bare V).InStep peers True (endings store) := by
    intro store
    cases store with
    | none => exact still ()
    | some store => exact forM (fun _ => forM (release unbiased Link.bare_even _) _) _
  have split : ∀ world : World V σ,
      Slot.endStorage world = endings world.thread.store { world with thread.store := none } := by
    rintro ⟨process, ⟨store, lastToken, tallying, current, reserved, unwindings⟩, host⟩
    cases store <;> rfl
  rw [split, split, ← stored]
  exact inStep _ _ _ ended

end Link.InStep

def abreast (unbiased : peers.Unbiased (V := V)) :
    Coupling (.among V peers) ({ link : Link V // link.Even } × Prop) where
  Ties i held world world' := i.1.1.Abreast peers i.2 world world' ∧
    ∀ scope ∈ held, ∃ n, scope.token = .numbered (i.1.1.left + n + 1)
  step := by
    intro _ _ primitive i held world world' tied
    obtain ⟨same, after⟩ := Link.InStep.primitive unbiased i.1.2 primitive _ _ tied.1
    exact ⟨same, after, tied.2⟩
  perm given := fun tied => ⟨tied.1, fun scope listed => tied.2 scope (given.mem_iff.2 listed)⟩
  unwound tied := ⟨{ tied.1 with
    unwindings := congrArg (· + 1) tied.1.unwindings
    alike := fun holds => by rw [World.unwound, World.unwound, tied.1.alike holds] }, tied.2⟩
  stopped tied := ⟨{ tied.1 with
    unwindings := congrArg (· - 1) tied.1.unwindings
    alike := fun holds => by rw [World.stopped, World.stopped, tied.1.alike holds] }, tied.2⟩
  enter {i _ _ _} scope tied := by
    obtain ⟨same, later, after⟩ := tied.1.enter i.1.2 scope
    exact ⟨same, after, List.forall_mem_cons.2 ⟨later, tied.2⟩⟩
  leave {i _ _ _} active tied := by
    obtain ⟨⟨n, later⟩, others⟩ := List.forall_mem_cons.1 tied.2
    exact ⟨(Link.InStep.leave unbiased i.1.2 later _ _ tied.1).2, others⟩
  Lends i key owner := i.1.1.Twin key owner owner
  lends {i _ world world' key top} tied innermost := by
    rcases (tied.1.frames key).top with ⟨none, _⟩ | ⟨_, _, _, _, _, _, first, _, twin⟩
    · rw [Stack.top?, none] at innermost
      cases innermost
    · rw [Stack.top?, first] at innermost
      cases innermost
      exact twin.same i.1.2 ▸ twin
  restore {i _ _ _ _ _} _ twin tied id value :=
    ⟨(Link.InStep.restore unbiased i.1.2 twin id value _ _ tied.1).2, tied.2⟩
  thread {i _ world world'} tied := by
    refine ⟨⟨⟨Link.bare V, Link.bare_even⟩, True⟩, ⟨?_, by simp⟩, ?_⟩
    · exact ⟨tied.1.process, rfl, Nat.zero_le _, rfl, rfl, rfl, rfl, Iff.rfl,
        fun key => .bottom rfl, fun _ => rfl, tied.1.host⟩
    · intro within later later' ended
      have last := (Link.InStep.endStorage unbiased _ _ ended.1).2
      exact ⟨⟨{ tied.1 with process := ended.1.process, host := ended.1.host }, tied.2⟩,
        { tied.1 with process := last.process, host := last.host }, tied.2⟩

end Operations

end FaultRelay

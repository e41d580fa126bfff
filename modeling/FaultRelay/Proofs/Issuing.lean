import FaultRelay.Proofs.Coupling
import FaultRelay.Proofs.GuardTarget

/-! How identities come up along a run. The identities of a thread ascend: each is later than the one
before, and a promise is later than what is current. So the current identity tells if any was issued
in between, and a promise stays until it is kept. No identity is ever issued twice, whatever the
threads of a process do in whatever order. -/
namespace FaultRelay

variable {V : Vocabulary} {σ α β : Type}

/-- Identities were drawn before they are current or promised, and a promise is the later one. -/
structure World.Orderly (world : World V σ) : Prop where
  current : ∀ id, world.thread.current = some id → id.number ≤ world.process.drawn
  promised : ∀ id, world.thread.reserved = some id → id.number ≤ world.process.drawn
  ascending : ∀ id next, world.thread.current = some id → world.thread.reserved = some next →
    id.number < next.number

theorem World.started_orderly (world : World V σ) : world.started.Orderly := ⟨nofun, nofun, nofun⟩

/-- The world goes on. Either the thread was issued no identity, and its promise stands, or its
current identity is a later one. -/
structure World.Advances (before after : World V σ) : Prop where
  orderly : before.Orderly → after.Orderly
  drawn : before.process.drawn ≤ after.process.drawn
  identity : before.Orderly →
    (after.thread.current = before.thread.current ∧
      ∀ id, before.thread.reserved = some id → after.thread.reserved = some id) ∨
    ∃ id, after.thread.current = some id ∧
      ∀ old, before.thread.current = some old → old.number < id.number
  gone : before.thread.store = none → after.thread.store = none

namespace World.Advances

variable {before middle after : World V σ}

theorem aside (drawn : after.process.drawn = before.process.drawn)
    (current : after.thread.current = before.thread.current)
    (reserved : after.thread.reserved = before.thread.reserved)
    (gone : before.thread.store = none → after.thread.store = none) : before.Advances after where
  orderly orderly := by
    refine ⟨fun id => ?_, fun id => ?_, fun id next => ?_⟩
    · rw [current, drawn]
      exact orderly.current id
    · rw [reserved, drawn]
      exact orderly.promised id
    · rw [current, reserved]
      exact orderly.ascending id next
  drawn := drawn.ge
  identity _ := .inl ⟨current, fun id promised => reserved.trans promised⟩
  gone := gone

theorem refl (world : World V σ) : world.Advances world := aside rfl rfl rfl id

theorem trans (first : before.Advances middle) (second : middle.Advances after) :
    before.Advances after where
  orderly orderly := second.orderly (first.orderly orderly)
  drawn := first.drawn.trans second.drawn
  identity orderly := by
    rcases first.identity orderly with ⟨same, stands⟩ | ⟨id, issued, later⟩ <;>
      rcases second.identity (first.orderly orderly) with ⟨same', stands'⟩ | ⟨id', issued', later'⟩
    · exact .inl ⟨same'.trans same, fun id promised => stands' id (stands id promised)⟩
    · exact .inr ⟨id', issued', fun old known => later' old (same.trans known)⟩
    · exact .inr ⟨id, same'.trans issued, later⟩
    · exact .inr ⟨id', issued', fun old known => (later old known).trans (later' id issued)⟩
  gone missing := second.gone (first.gone missing)

/-- If in the end no identity was issued, none was in between, and a promise stands from then on. -/
theorem unissued (first : before.Advances middle) (second : middle.Advances after)
    (orderly : before.Orderly) (same : after.thread.current = before.thread.current) :
    middle.thread.current = before.thread.current ∧
      ∀ id, middle.thread.reserved = some id → after.thread.reserved = some id := by
  rcases second.identity (first.orderly orderly) with ⟨same', stands⟩ | ⟨id, issued, later⟩
  · exact ⟨same'.symm.trans same, stands⟩
  · rcases first.identity orderly with ⟨kept, _⟩ | ⟨id', issued', later'⟩
    · exact absurd (later id (kept.trans (same.symm.trans issued))) (lt_irrefl _)
    · have ascends := (later' id (same.symm.trans issued)).trans (later id' issued')
      exact absurd ascends (lt_irrefl _)

/-- What other threads draw does not concern the thread. -/
theorem rejoin {world later : World V σ} (drawn : world.process.drawn ≤ later.process.drawn) :
    world.Advances (world.rejoined later) where
  orderly orderly := ⟨fun id known => (orderly.current id known).trans drawn,
    fun id promised => (orderly.promised id promised).trans drawn, orderly.ascending⟩
  drawn := drawn
  identity _ := .inl ⟨rfl, fun _ => id⟩
  gone := id

end World.Advances

section Minting

variable {world : World V σ}

theorem World.Orderly.upcoming (orderly : world.Orderly) :
    (FailureId.upcoming world).1.number ≤ (FailureId.upcoming world).2.process.drawn ∧
      world.process.drawn ≤ (FailureId.upcoming world).2.process.drawn ∧
      ∀ old, world.thread.current = some old → old.number < (FailureId.upcoming world).1.number := by
  rcases promised : world.thread.reserved with _ | id
  · rw [FailureId.upcoming_unreserved promised]
    change (FailureId.numbered _).number ≤ _ ∧ _ ∧ ∀ old, _ → _ < (FailureId.numbered _).number
    rw [FailureId.number_numbered]
    exact ⟨le_refl _, Nat.le_succ _, fun old known => Nat.lt_succ_of_le (orderly.current old known)⟩
  · rw [FailureId.upcoming_reserved promised]
    exact ⟨orderly.promised id promised, le_refl _,
      fun old known => orderly.ascending old id known promised⟩

theorem upcoming_drawn (world : World V σ) :
    world.process.drawn ≤ (FailureId.upcoming world).2.process.drawn := by
  rcases promised : world.thread.reserved with _ | id
  · rw [FailureId.upcoming_unreserved promised]
    exact Nat.le_succ _
  · rw [FailureId.upcoming_reserved promised]

theorem mint_advances (world : World V σ) : world.Advances (FailureId.mint world).2 := by
  have thread := FailureId.upcoming_thread world
  rw [FailureId.mint_apply, thread]
  refine ⟨fun orderly => ?_, upcoming_drawn world, fun orderly => ?_, id⟩
  · refine ⟨?_, ?_, ?_⟩
    · rintro id ⟨⟩
      exact orderly.upcoming.1
    · rintro id ⟨⟩
    · rintro id next _ ⟨⟩
  · exact .inr ⟨_, rfl, orderly.upcoming.2.2⟩

theorem reserve_advances (world : World V σ) : world.Advances (FailureId.reserve world).2 := by
  have thread := FailureId.upcoming_thread world
  rw [FailureId.reserve_apply, thread]
  refine ⟨fun orderly => ?_, upcoming_drawn world, fun _ => .inl ⟨rfl, fun id promised => ?_⟩, id⟩
  · obtain ⟨drawn, more, later⟩ := orderly.upcoming
    refine ⟨fun id known => (orderly.current id known).trans more, ?_, ?_⟩
    · rintro id ⟨⟩
      exact drawn
    · rintro id next known ⟨⟩
      exact later id known
  · rw [FailureId.upcoming_reserved promised]

end Minting

/-- The operation advances, and takes no part in unwindings. -/
def Calm (act : Quiet V σ α) : Prop :=
  ∀ world, world.Advances (act world).2 ∧
    (act world).2.thread.unwindings = world.thread.unwindings

structure Steady (V : Vocabulary) (σ : Type) [Host V σ] : Prop where
  destroy : ∀ kind value, Calm (Host.destroy kind value : Quiet V σ Unit)
  declared : ∀ argument count, Calm (Host.declared argument count : Quiet V σ Unit)
  available : ∀ argument case, Calm (Host.available argument case : Quiet V σ Bool)
  produced : ∀ argument, Calm (Host.produced argument : Quiet V σ (Option V.Product))

namespace Calm

theorem still (value : α) : Calm (pure value : Quiet V σ α) := fun world => ⟨.refl world, rfl⟩

theorem seq {act : Quiet V σ α} {next : α → Quiet V σ β} (first : Calm act)
    (later : ∀ value, Calm (next value)) : Calm (act >>= next) := by
  intro world
  obtain ⟨advances, unwindings⟩ := first world
  obtain ⟨advances', unwindings'⟩ := later (act world).1 (act world).2
  exact ⟨advances.trans advances', unwindings'.trans unwindings⟩

theorem forM {act : β → Quiet V σ Unit} (calm : ∀ element, Calm (act element)) (list : List β) :
    Calm (list.forM act) := by
  induction list with
  | nil => exact still ()
  | cons first rest ih => exact seq (calm first) fun _ => ih

theorem onStack {key : Key V} (change : Stack key.Value → α × Stack key.Value) :
    Calm (Slot.onStack key change : Quiet V σ α) := fun world =>
  ⟨.aside rfl rfl rfl fun gone => by rw [Slot.onStack_apply, Thread.setStack_gone gone]; exact gone,
    rfl⟩

theorem emit [Observer σ] (event : Event) : Calm (emit event : Quiet V σ Unit) := fun _ =>
  ⟨.aside rfl rfl rfl id, rfl⟩

theorem tally (change : Nat → Nat) : Calm (Quiet.modifyThread fun thread =>
    { thread with tallying := change thread.tallying } : Quiet V σ Unit) := fun _ =>
  ⟨.aside rfl rfl rfl id, rfl⟩

variable [Host V σ]

theorem enter (scope : Scope V) : Calm (scope.enter : Quiet V σ (OpenScope V)) := fun world =>
  ⟨.aside (by rw [enter_process]) (enter_current scope world) (enter_reserved scope world)
    (enter_gone scope world).2, enter_unwindings scope world⟩

variable (steady : Steady V σ)
include steady

theorem release (key : Key V) (value : key.Value) : Calm (release key value : Quiet V σ Unit) := by
  cases key with
  | app kind => exact steady.destroy kind value
  | tally | thrown => exact still ()

theorem closeSlot (owner : Token) (key : Key V) :
    Calm (Scope.closeSlot owner key : Quiet V σ Unit) := by
  refine seq (onStack _) fun closed => ?_
  cases closed with
  | retained | released | notOpen => exact still ()
  | propagated id replaced =>
      refine seq (emit _) fun _ => ?_
      cases replaced with
      | none => exact still ()
      | some value => exact release steady key value
  | discarded id value => exact seq (emit _) fun _ => release steady key value

theorem leave (active : OpenScope V) : Calm (active.leave : Quiet V σ Unit) := by
  refine seq (forM (closeSlot steady active.token) _) fun _ => ?_
  cases active.tallies with
  | true => exact seq (tally (· - 1)) fun _ => emit _
  | false => exact emit _

theorem restore (key : Key V) (owner : Token) (id : Nat) (value : key.Value) :
    Calm (Slot.restore key owner id value : Quiet V σ Unit) := by
  intro world
  have read : Slot.stack key world = (world.thread.stack key, world) := rfl
  unfold Slot.restore
  simp only [bind, StateT.bind, read]
  rcases (world.thread.stack key).frameOf? owner with _ | ⟨_, _, _ | held⟩
  · exact release steady key value world
  · exact ⟨.aside rfl rfl rfl fun gone => congrArg (Option.map _) gone, rfl⟩
  · exact release steady key value world

theorem endStorage : Calm (Slot.endStorage : Quiet V σ Unit) := by
  have read : Calm ((·.store) <$> Quiet.thread : Quiet V σ (Option (Store V))) := fun _ =>
    ⟨.refl _, rfl⟩
  refine seq read fun store => ?_
  refine seq (fun _ => ⟨.aside rfl rfl rfl fun _ => rfl, rfl⟩) fun _ => ?_
  cases store with
  | none => exact still ()
  | some store =>
      have released := fun entry : (key : Key V) × Stack key.Value =>
        forM (release steady entry.1) (entry.2.frames.reverse.filterMap Frame.value?)
      exact forM released _

theorem primitive {range : Range V σ} {act : Quiet V σ α} (primitive : Primitive range act) :
    Calm act := by
  intro world
  cases primitive with
  | own | current | unwinding => exact ⟨.aside rfl rfl rfl id, rfl⟩
  | emit event => exact emit event world
  | touch => exact onStack _ world
  | mint =>
      refine ⟨mint_advances world, ?_⟩
      have thread := FailureId.upcoming_thread world
      rw [FailureId.mint_apply, thread]
  | reserve =>
      refine ⟨reserve_advances world, ?_⟩
      have thread := FailureId.upcoming_thread world
      rw [FailureId.reserve_apply, thread]
  | tallying =>
      rw [tallying_apply]
      exact ⟨.aside rfl rfl rfl id, rfl⟩
  | inForce =>
      obtain ⟨⟨drawn, settings, environment⟩, thread, host⟩ := world
      cases settings <;> exact ⟨.aside rfl rfl rfl id, rfl⟩
  | adopt _ settings =>
      obtain ⟨⟨drawn, decided, environment⟩, thread, host⟩ := world
      cases decided <;> exact ⟨.aside rfl rfl rfl id, rfl⟩
  | destroy kind value => exact steady.destroy kind value world
  | declared argument count => exact steady.declared argument count world
  | available argument case => exact steady.available argument case world
  | produced argument => exact steady.produced argument world

theorem routine {range : Range V σ} {act : Quiet V σ α} (routine : Routine range act) :
    Calm act := by
  induction routine with
  | step primitive => exact Calm.primitive steady primitive
  | still value => exact still value
  | @follow _ _ act next first later ihFirst ihLater =>
      intro world
      obtain ⟨advances, unwindings⟩ := ihFirst world
      obtain ⟨advances', unwindings'⟩ := ihLater (act world).1 ⟨world, rfl⟩ (act world).2
      exact ⟨advances.trans advances', unwindings'.trans unwindings⟩

end Calm

section Programs

variable [Host V σ] (steady : Steady V σ) {range : Range V σ}
include steady

def Steady.progress (range : Range V σ) : Invariant range (World V σ) where
  Holds start _ world := start.Advances world
  step primitive := fun advances => advances.trans (Calm.primitive steady primitive _).1
  perm _ advances := advances
  unwound advances := advances.trans (.aside rfl rfl rfl id)
  stopped advances := advances.trans (.aside rfl rfl rfl id)
  enter scope advances := advances.trans (Calm.enter scope _).1
  leave active advances := advances.trans (Calm.leave steady active _).1
  restore _ advances owner id value := advances.trans (Calm.restore steady _ owner id value _).1
  thread {start _ world} advances := by
    refine ⟨world.started, .refl _, fun {_ later} ended => ?_⟩
    have last := ended.trans (Calm.endStorage steady later).1
    exact ⟨advances.trans (.rejoin ended.drawn), advances.trans (.rejoin last.drawn)⟩

/-- How many unwindings are under way once a run has ended that started with `count`. -/
def Counted (count : Nat) (run : Except (Exit V) α × World V σ) : Prop :=
  match run.1 with
  | .ok _ => run.2.thread.unwindings = count
  | .error (.unwinding _) => run.2.thread.unwindings = count + 1
  | .error .aborted => True

theorem Program.counted {held : List (OpenScope V)} {act : Act V σ α} {left : α → List (OpenScope V)}
    (program : Program range held act left) (world : World V σ) :
    Counted world.thread.unwindings (act world) := by
  -- a body starts with as many unwindings as its caller, so every case is about one level
  induction program generalizing world with
  | quiet routine => exact (Calm.routine steady routine world).2
  | still value => rfl
  | @follow _ _ _ _ _ act next _ _ first later =>
      have counted := first world
      rcases ended : act world with ⟨(object | _) | value, after⟩ <;> rw [ended] at counted
      · rw [bind_error (by rw [ended]), ended]
        exact counted
      · rw [bind_error (by rw [ended])]
        trivial
      · have same : after.thread.unwindings = world.thread.unwindings := counted
        rw [bind_ok (by rw [ended]), ended, ← same]
        exact later value ⟨world, by rw [ended]⟩ after
  | unwind object => rfl
  | @attempt _ _ _ act _ body =>
      have counted := body world
      unfold Act.attempt
      rcases ended : act world with ⟨(object | _) | value, after⟩ <;> rw [ended] at counted
      · exact Nat.sub_eq_of_eq_add counted
      · trivial
      · exact counted
  | @cleanup _ _ _ _ act clean _ _ body cleaning =>
      have counted := body world
      unfold Act.onUnwinding
      rcases ended : act world with ⟨(object | _) | value, after⟩ <;> rw [ended] at counted
      · have cleaned := cleaning after
        dsimp only
        rcases cleared : clean after with ⟨exit | ⟨⟩, last⟩ <;> rw [cleared] at cleaned
        · trivial
        · exact Eq.trans (show last.thread.unwindings = _ from cleaned) counted
      · trivial
      · exact counted
  | enter scope => exact enter_unwindings scope world
  | leave active => exact (Calm.leave steady active world).2
  | @lend _ _ _ key use within id _ uses =>
      rcases held : (world.thread.stack key).valueFor id with _ | value
      · rw [lendNothing_apply held]
        rfl
      · obtain ⟨top, innermost⟩ := top_of_valueFor held
        have counted := uses value (Slot.takeFor key id world).2
        have back := fun world => (Calm.restore steady key top.owner id value world).2
        rw [lend_apply innermost held, map_apply, ensuring_quietly_apply]
        rcases ended : use value (Slot.takeFor key id world).2 with ⟨(object | _) | answer, after⟩ <;>
          rw [ended] at counted
        · exact (back after).trans counted
        · trivial
        · exact (back after).trans counted
  | @spawn _ _ _ act _ _ =>
      rw [spawn_apply]
      rcases ended : act.attempt world.started with ⟨(object | _) | result, after⟩
      · exact absurd (congrArg Prod.fst ended) (attempt_stops object)
      · trivial
      · rfl
  | perm _ _ _ body => exact body world

end Programs

structure Crowd (V : Vocabulary) (τ : Type) where
  process : Process
  threads : τ → Thread V

section Crowds

variable {τ : Type}

def Crowd.world (crowd : Crowd V τ) (t : τ) : World V Unit := ⟨crowd.process, crowd.threads t, ()⟩

def Crowd.after [DecidableEq τ] (crowd : Crowd V τ) (t : τ) (world : World V Unit) : Crowd V τ :=
  ⟨world.process, Function.update crowd.threads t world.thread⟩

theorem Crowd.after_own [DecidableEq τ] (crowd : Crowd V τ) (t : τ) (world : World V Unit) :
    (crowd.after t world).threads t = world.thread := Function.update_self ..

theorem Crowd.after_other [DecidableEq τ] (crowd : Crowd V τ) {t u : τ} (differ : u ≠ t)
    (world : World V Unit) : (crowd.after t world).threads u = crowd.threads u :=
  Function.update_of_ne differ ..

/-- The identities that were issued in a process so far. The threads take turns in any order. -/
inductive Issues [DecidableEq τ] : List FailureId → Crowd V τ → Prop
  | start {crowd : Crowd V τ} (unpromised : ∀ t, (crowd.threads t).reserved = none) :
      Issues [] crowd
  | mint {ids : List FailureId} {crowd : Crowd V τ} (t : τ) (issues : Issues ids crowd) :
      Issues ((FailureId.mint (crowd.world t)).1 :: ids)
        (crowd.after t (FailureId.mint (crowd.world t)).2)
  | reserve {ids : List FailureId} {crowd : Crowd V τ} (t : τ) (issues : Issues ids crowd) :
      Issues ids (crowd.after t (FailureId.reserve (crowd.world t)).2)
  /-- Whatever else threads do, ending included. -/
  | other {ids : List FailureId} {crowd crowd' : Crowd V τ}
      (drawn : crowd'.process.drawn = crowd.process.drawn)
      (promises : ∀ t, (crowd'.threads t).reserved = (crowd.threads t).reserved ∨
        (crowd'.threads t).reserved = none) (issues : Issues ids crowd) : Issues ids crowd'

/-- What was issued or promised was drawn, and a promise was made once and not issued yet. -/
structure Crowd.Accounts (crowd : Crowd V τ) (ids : List FailureId) : Prop where
  issued : ∀ id ∈ ids, id.number ≤ crowd.process.drawn
  promised : ∀ t id, (crowd.threads t).reserved = some id →
    id.number ≤ crowd.process.drawn ∧ id ∉ ids
  once : ∀ t u id, (crowd.threads t).reserved = some id → (crowd.threads u).reserved = some id → t = u

namespace Crowd.Accounts

variable {crowd : Crowd V τ} {ids : List FailureId}

theorem fresh (accounts : crowd.Accounts ids) (t : τ) :
    (FailureId.upcoming (crowd.world t)).1 ∉ ids := by
  rcases promised : (crowd.threads t).reserved with _ | id
  · rw [FailureId.upcoming_unreserved promised]
    intro listed
    have bound := accounts.issued _ listed
    change (FailureId.numbered (crowd.process.drawn + 1)).number ≤ _ at bound
    rw [FailureId.number_numbered] at bound
    omega
  · rw [FailureId.upcoming_reserved promised]
    exact (accounts.promised t id promised).2

/-- What comes up for one thread was not promised to another. -/
theorem unpromised (accounts : crowd.Accounts ids) {t u : τ} (differ : u ≠ t) :
    (crowd.threads u).reserved ≠ some (FailureId.upcoming (crowd.world t)).1 := by
  intro theirs
  rcases promised : (crowd.threads t).reserved with _ | id
  · rw [FailureId.upcoming_unreserved promised] at theirs
    have bound := (accounts.promised u _ theirs).1
    change (FailureId.numbered (crowd.process.drawn + 1)).number ≤ _ at bound
    rw [FailureId.number_numbered] at bound
    omega
  · rw [FailureId.upcoming_reserved promised] at theirs
    exact differ (accounts.once u t id theirs promised)

theorem upcoming_bound (accounts : crowd.Accounts ids) (t : τ) :
    (FailureId.upcoming (crowd.world t)).1.number ≤
      (FailureId.upcoming (crowd.world t)).2.process.drawn := by
  rcases promised : (crowd.threads t).reserved with _ | id
  · rw [FailureId.upcoming_unreserved promised]
    exact (FailureId.number_numbered _).le
  · rw [FailureId.upcoming_reserved promised]
    exact (accounts.promised t id promised).1

variable [DecidableEq τ]

theorem mint (accounts : crowd.Accounts ids) (t : τ) :
    (crowd.after t (FailureId.mint (crowd.world t)).2).Accounts
      ((FailureId.mint (crowd.world t)).1 :: ids) := by
  have drawn := upcoming_drawn (crowd.world t)
  have before : ∀ u id, ((crowd.after t (FailureId.mint (crowd.world t)).2).threads u).reserved =
      some id → u ≠ t ∧ (crowd.threads u).reserved = some id := by
    intro u id promised
    by_cases own : u = t
    · subst own
      rw [after_own] at promised
      cases promised
    · rw [after_other _ own] at promised
      exact ⟨own, promised⟩
  refine ⟨?_, fun u id promised => ?_, fun u v id first second => ?_⟩
  · exact List.forall_mem_cons.2 ⟨accounts.upcoming_bound t, fun id listed =>
      (accounts.issued id listed).trans drawn⟩
  · obtain ⟨differ, theirs⟩ := before u id promised
    obtain ⟨bound, unissued⟩ := accounts.promised u id theirs
    refine ⟨bound.trans drawn, List.not_mem_cons_of_ne_of_not_mem ?_ unissued⟩
    rintro rfl
    exact accounts.unpromised differ theirs
  · exact accounts.once u v id (before u id first).2 (before v id second).2

theorem reserve (accounts : crowd.Accounts ids) (t : τ) :
    (crowd.after t (FailureId.reserve (crowd.world t)).2).Accounts ids := by
  have drawn := upcoming_drawn (crowd.world t)
  have before : ∀ u id, ((crowd.after t (FailureId.reserve (crowd.world t)).2).threads u).reserved =
      some id → (u = t ∧ id = (FailureId.upcoming (crowd.world t)).1) ∨
        u ≠ t ∧ (crowd.threads u).reserved = some id := by
    intro u id promised
    by_cases own : u = t
    · subst own
      rw [after_own] at promised
      exact .inl ⟨rfl, (Option.some.inj promised).symm⟩
    · rw [after_other _ own] at promised
      exact .inr ⟨own, promised⟩
  refine ⟨fun id listed => (accounts.issued id listed).trans drawn, fun u id promised => ?_,
    fun u v id first second => ?_⟩
  · rcases before u id promised with ⟨rfl, rfl⟩ | ⟨_, theirs⟩
    · exact ⟨accounts.upcoming_bound u, accounts.fresh u⟩
    · obtain ⟨bound, unissued⟩ := accounts.promised u id theirs
      exact ⟨bound.trans drawn, unissued⟩
  · rcases before u id first with ⟨rfl, rfl⟩ | ⟨differ, theirs⟩ <;>
      rcases before v _ second with ⟨rfl, same⟩ | ⟨differ', theirs'⟩
    · rfl
    · exact absurd theirs' (accounts.unpromised differ')
    · exact absurd (same ▸ theirs) (accounts.unpromised differ)
    · exact accounts.once u v _ theirs theirs'

end Crowd.Accounts

theorem Issues.accounts [DecidableEq τ] {ids : List FailureId} {crowd : Crowd V τ}
    (issues : Issues ids crowd) : crowd.Accounts ids := by
  induction issues with
  | start unpromised =>
      refine ⟨by simp, fun t id promised => ?_, fun t _ id promised => ?_⟩ <;>
        rw [unpromised t] at promised <;> cases promised
  | mint t _ ih => exact ih.mint t
  | reserve t _ ih => exact ih.reserve t
  | @other _ crowd crowd' drawn promises _ ih =>
      have before : ∀ t id, (crowd'.threads t).reserved = some id →
          (crowd.threads t).reserved = some id := fun t id promised =>
        (promises t).elim (fun same => same.symm.trans promised)
          fun none => by rw [none] at promised; cases promised
      refine ⟨fun id listed => drawn ▸ ih.issued id listed, fun t id promised => ?_,
        fun t u id first second => ih.once t u id (before t id first) (before u id second)⟩
      rw [drawn]
      exact ih.promised t id (before t id promised)

end Crowds

end FaultRelay
